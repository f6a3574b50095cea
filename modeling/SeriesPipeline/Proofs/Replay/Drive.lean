import SeriesPipeline.Proofs.Plan.Flow
import SeriesPipeline.Proofs.Replay.Calls
import SeriesPipeline.Replay.Basic

/-!
# Drives

A drive is a task with a replay that feeds it, one move at a time: the replay sends a message,
begins a call or turns to its next batch, a process makes a step, the task is looked after, or the
clock is set from outside. The moves come in any order.
-/

namespace SeriesPipeline

structure Drive where
  clock : Clock
  task : PipelineTask
  replay : Replay
  /-- How the replay has ended, if it has. -/
  outcome : Option (Except Failure Unit)
  /-- The calls that were begun. -/
  calls : List Call
  log : List Event

namespace Drive

inductive Move where
  /-- The replay goes on. -/
  | replay
  | step (process : Nat)
  /-- All processes are aborted, if that is called for. -/
  | abort
  /-- The task ends, if all processes have exited. -/
  | finish
  /-- Somebody else sets the clock. -/
  | set (t : Instant)

def start (clock : Clock) (t : PipelineTask) (r : Replay) : Drive := ⟨clock, t, r, none, [], []⟩

/-- The replay sends the next message. A close for a process that is gone is not missed. -/
def send? (d : Drive) (s : Send) (sends : List Send) : Option Drive :=
  let sent := { d with replay := { d.replay with sends }, log := d.log ++ [.fed s.1 s.2] }
  match d.task.offer s with
  | .taken task => some { sent with task }
  | .gone =>
    if s.2.isClose then some sent
    else some { sent with outcome := some (.error (.inputClosed d.task.name)) }
  | .full => none

/-- The replay begins the next call. -/
def begin (d : Drive) (c : Call) (calls : List Call) : Drive :=
  match d.task.begin? c with
  | some (task, sends) =>
    { d with task, replay := { d.replay with calls, sends }, calls := d.calls ++ [c] }
  | none => { d with outcome := some (.error (.inputClosed d.task.name)) }

/-- The replay turns to its next batch, if it does not wait for the clock. -/
def turn? (d : Drive) : Option Drive :=
  match d.replay.next d.clock with
  | .finished => some { d with outcome := some (.ok ()) }
  | .waiting => none
  | .outOfOrder cause => some { d with outcome := some (.error cause) }
  | .ready clock replay => some { d with clock, replay }

/-- The replay goes on by itself, until it has ended. -/
def goOn? (d : Drive) : Option Drive :=
  match d.outcome, d.replay.sends, d.replay.calls with
  | some _, _, _ => none
  | none, s :: sends, _ => d.send? s sends
  | none, [], c :: calls => some (d.begin c calls)
  | none, [], [] => d.turn?

def move? (d : Drive) : Move → Option Drive
  | .replay => d.goOn?
  | .step k => do
    let p ← d.task.network.processes[k]?
    let network ← d.task.network.step? d.clock.now k
    return { d with task := { d.task with network }, log := d.log ++ p.events d.clock.now k }
  | .abort => some { d with task := d.task.superviseAbort }
  | .finish => some { d with task := d.task.superviseEnd }
  | .set t => some { d with clock := d.clock.set t }

/-- Makes moves one after the other, if all of them can be made. -/
def run (d : Drive) (moves : List Move) : Option Drive := moves.foldlM move? d

variable {d d' : Drive} {moves : List Move}

/-- What a replay does when it goes on. -/
inductive GoesOn (d : Drive) : Drive → Prop where
  | sends {s : Send} {sends : List Send} {network : Network} (hsends : d.replay.sends = s :: sends)
    (hoffer : d.task.network.offer s.1 ⟨0, s.2⟩ = .taken network) :
    GoesOn d { d with
      task := { d.task with network }, replay := { d.replay with sends }
      log := d.log ++ [.fed s.1 s.2] }
  | misses {s : Send} {sends : List Send} (hsends : d.replay.sends = s :: sends)
    (hoffer : d.task.network.offer s.1 ⟨0, s.2⟩ = .gone) (hclose : s.2 = .close) :
    GoesOn d { d with replay := { d.replay with sends }, log := d.log ++ [.fed s.1 s.2] }
  | rejected {s : Send} {sends : List Send} (hsends : d.replay.sends = s :: sends)
    (hoffer : d.task.network.offer s.1 ⟨0, s.2⟩ = .gone) (hclose : s.2 ≠ .close) :
    GoesOn d { d with
      replay := { d.replay with sends }, outcome := some (.error (.inputClosed d.task.name))
      log := d.log ++ [.fed s.1 s.2] }
  | begins {c : Call} {calls : List Call} {task : PipelineTask} {sends : List Send}
    (hsends : d.replay.sends = []) (hcalls : d.replay.calls = c :: calls)
    (hbegin : d.task.begin? c = some (task, sends)) :
    GoesOn d { d with task, replay := { d.replay with calls, sends }, calls := d.calls ++ [c] }
  | refused {c : Call} {calls : List Call} (hsends : d.replay.sends = [])
    (hcalls : d.replay.calls = c :: calls) (hbegin : d.task.begin? c = none) :
    GoesOn d { d with outcome := some (.error (.inputClosed d.task.name)) }
  | turns {clock : Clock} {replay : Replay} (hsends : d.replay.sends = [])
    (hcalls : d.replay.calls = []) (hnext : d.replay.next d.clock = .ready clock replay) :
    GoesOn d { d with clock, replay }
  | finished (hsends : d.replay.sends = []) (hcalls : d.replay.calls = [])
    (hnext : d.replay.next d.clock = .finished) : GoesOn d { d with outcome := some (.ok ()) }
  | outOfOrder {cause : Failure} (hsends : d.replay.sends = []) (hcalls : d.replay.calls = [])
    (hnext : d.replay.next d.clock = .outOfOrder cause) :
    GoesOn d { d with outcome := some (.error cause) }

theorem goesOn_of_goOn? (h : d.goOn? = some d') : d.outcome = none ∧ d.GoesOn d' := by
  unfold goOn? at h
  split at h
  · cases h
  · rename_i s sends hnone hsends
    refine ⟨hnone, ?_⟩
    rw [send?, PipelineTask.offer] at h
    cases hoffer : d.task.network.offer s.1 ⟨0, s.2⟩ with
    | taken network =>
      rw [hoffer] at h
      cases h
      exact .sends hsends hoffer
    | gone =>
      rw [hoffer] at h
      dsimp only [Offer.map] at h
      split at h
      · rename_i hclose
        cases h
        exact .misses hsends hoffer (Message.isClose_iff.1 hclose)
      · rename_i hclose
        cases h
        exact .rejected hsends hoffer fun h => hclose (Message.isClose_iff.2 h)
    | full =>
      rw [hoffer] at h
      cases h
  · rename_i c calls hnone hsends hcalls
    cases h
    refine ⟨hnone, ?_⟩
    rw [begin]
    split
    · rename_i task sends hbegin
      exact .begins hsends hcalls hbegin
    · rename_i hbegin
      exact .refused hsends hcalls hbegin
  · rename_i hnone hsends hcalls
    refine ⟨hnone, ?_⟩
    rw [turn?] at h
    split at h <;> cases h
    · rename_i hnext
      exact .finished hsends hcalls hnext
    · rename_i hnext
      exact .outOfOrder hsends hcalls hnext
    · rename_i hnext
      exact .turns hsends hcalls hnext

/-- What a move comes to. -/
inductive Moves (d : Drive) : Move → Drive → Prop where
  | goesOn {d' : Drive} (hnone : d.outcome = none) (hgoes : d.GoesOn d') : Moves d .replay d'
  | steps {k : Nat} {q : Process} {network : Network}
    (hq : d.task.network.processes[k]? = some q)
    (hstep : d.task.network.step? d.clock.now k = some network) :
    Moves d (.step k) { d with
      task := { d.task with network }, log := d.log ++ q.events d.clock.now k }
  | aborts : Moves d .abort { d with task := { d.task with network := d.task.network.abort } }
  | finishes : Moves d .finish { d with task := { d.task with inlets := none, finished := true } }
  /-- Neither an abort nor the end is called for. -/
  | rests {move : Move} : Moves d move d
  | sets (t : Instant) : Moves d (.set t) { d with clock := d.clock.set t }

theorem moves_of_move? {move : Move} (h : d.move? move = some d') : d.Moves move d' := by
  cases move with
  | replay =>
    obtain ⟨hnone, hgoes⟩ := goesOn_of_goOn? h
    exact .goesOn hnone hgoes
  | step k =>
    obtain ⟨q, hq, h⟩ := Option.bind_eq_some_iff.1 h
    obtain ⟨network, hstep, h⟩ := Option.bind_eq_some_iff.1 h
    cases h
    exact .steps hq hstep
  | abort =>
    cases h
    rw [PipelineTask.superviseAbort]
    split
    · exact .aborts
    · exact .rests
  | finish =>
    cases h
    rw [PipelineTask.superviseEnd]
    split
    · exact .finishes
    · exact .rests
  | set t =>
    cases h
    exact .sets t

/-- What every move keeps, all moves keep. -/
theorem run_induction {P : Drive → Prop} {Q : Move → Prop}
    (h : ∀ d d' move, Q move → P d → d.Moves move d' → P d')
    (hmoves : ∀ move ∈ moves, Q move) (hd : P d) (hrun : d.run moves = some d') : P d' := by
  induction moves generalizing d with
  | nil =>
    cases hrun
    exact hd
  | cons move rest ih =>
    rw [run, List.foldlM_cons] at hrun
    obtain ⟨e, hmove, hrest⟩ := Option.bind_eq_some_iff.1 hrun
    exact ih (fun move hmove => hmoves move (List.mem_cons_of_mem _ hmove))
      (h d e move (hmoves move List.mem_cons_self) hd (moves_of_move? hmove)) hrest

end Drive

/-! ## Calls that begin -/

/-- A call that begins sends its message to the inlets that it reaches. Only a close begins once the
inlets are gone, and sends nothing then. -/
theorem PipelineTask.of_begin?_eq_some {t t' : PipelineTask} {c : Call} {sends : List Send}
    (h : t.begin? c = some (t', sends)) :
    (t'.plan = t.plan ∧ t'.network = t.network ∧ t'.finished = t.finished) ∧
      ((∃ inlets, t.inlets = some inlets ∧
          sends = (inlets.filter (c.reaches ·)).map (fun i => (i.process, c.message)) ∧
          (t'.inlets = some inlets ∧ c ≠ .close ∨ t'.inlets = none ∧ c = .close)) ∨
        c = .close ∧ t.inlets = none ∧ t'.inlets = none ∧ sends = []) := by
  unfold begin? at h
  split at h
  · rename_i b inlets hinlets
    cases h
    exact ⟨⟨rfl, rfl, rfl⟩, .inl ⟨inlets, hinlets, rfl, .inl ⟨hinlets, nofun⟩⟩⟩
  · rename_i time inlets hinlets
    cases h
    refine ⟨⟨rfl, rfl, rfl⟩, .inl ⟨inlets, hinlets, ?_, .inl ⟨hinlets, nofun⟩⟩⟩
    have hall : inlets.filter (Call.reaches · (.barrier time)) = inlets :=
      List.filter_eq_self.2 fun _ _ => rfl
    rw [hall]
    rfl
  · rename_i inlets hinlets
    cases h
    refine ⟨⟨rfl, rfl, rfl⟩, .inl ⟨inlets, hinlets, ?_, .inr ⟨rfl, rfl⟩⟩⟩
    have hall : inlets.filter (Call.reaches · .close) = inlets :=
      List.filter_eq_self.2 fun _ _ => rfl
    rw [hall]
    rfl
  · rename_i hinlets
    cases h
    exact ⟨⟨rfl, rfl, rfl⟩, .inr ⟨rfl, hinlets, hinlets, rfl⟩⟩
  · cases h

/-! ## The network of a drive -/

/-- What was given from outside is what the log notes as given. -/
theorem Execution.Reached.of_makes {n : Network} {x x' : Execution} {events : List Event}
    (h : (⟨x.network, fun _ => [], x.log⟩ : Execution).Reached n (fedTo · x.log))
    (hmakes : x.Makes events x') :
    (⟨x'.network, fun _ => [], x'.log⟩ : Execution).Reached n (fedTo · x'.log) := by
  have hx : x.Reached n fun k => fedTo k x.log ++ x.feeds k :=
    ⟨h.processes, h.actors, fun _ => rfl, h.results⟩
  have hx' := hx.makes hmakes
  exact ⟨hx'.processes, hx'.actors, fun _ => (List.append_nil _).symm, hx'.results⟩

/-- A message goes to a process, which may be gone. -/
theorem Execution.Reached.fed {n network network' : Network} {log : List Event} {k : Nat}
    {m : Message} (h : (⟨network, fun _ => [], log⟩ : Execution).Reached n (fedTo · log))
    (hoffer : network.offer k ⟨0, m⟩ = .taken network' ∨
      network.offer k ⟨0, m⟩ = .gone ∧ network' = network) :
    (⟨network', fun _ => [], log ++ [.fed k m]⟩ : Execution).Reached n
      (fedTo · (log ++ [.fed k m])) := by
  let x : Execution := ⟨network, Function.update (fun _ => []) k [m], log⟩
  have hfeeds : x.feeds k = [m] := Function.update_self k [m] fun _ => []
  have hfed : x.move? (.feed k) = some (x.fed k m [] network') := by
    rw [Execution.move?, hfeeds]
    rcases hoffer with hoffer | ⟨hoffer, rfl⟩
    · dsimp only
      rw [hoffer]
    · dsimp only
      rw [hoffer]
  obtain ⟨events, hmakes⟩ := Execution.makes_of_move? hfed
  exact Execution.Reached.of_makes (x := x) h hmakes

theorem Execution.Reached.step {n network network' : Network} {log : List Event} {now : Instant}
    {k : Nat} {q : Process} (h : (⟨network, fun _ => [], log⟩ : Execution).Reached n (fedTo · log))
    (hq : network.processes[k]? = some q) (hstep : network.step? now k = some network') :
    (⟨network', fun _ => [], log ++ q.events now k⟩ : Execution).Reached n
      (fedTo · (log ++ q.events now k)) := by
  let x : Execution := ⟨network, fun _ => [], log⟩
  have hmove : x.move? (.step k now) =
      some ⟨network', fun _ => [], log ++ q.events now k⟩ := by
    rw [Execution.move?]
    dsimp only [x]
    rw [hq, Option.bind_eq_bind, Option.bind_some, hstep]
    rfl
  obtain ⟨events, hmakes⟩ := Execution.makes_of_move? hmove
  exact Execution.Reached.of_makes (x := x) h hmakes

namespace Drive

/-- The network of a drive, with all that was given to it. -/
def execution (d : Drive) : Execution := ⟨d.task.network, fun _ => [], d.log⟩

/-- The network of a drive comes from `n` by what the log notes. -/
def Grows (n : Network) (d : Drive) : Prop := d.execution.Reached n (fedTo · d.log)

variable {n : Network} {d d' : Drive} {move : Move}

theorem grows_start (clock : Clock) (p : Plan) (r : Replay) :
    (start clock (.launch p) r).Grows p.network :=
  Execution.reached_start p.isNew_of_mem_network

/-- Neither the network nor the log changes. -/
theorem Grows.of_eq (h : d.Grows n) (hnetwork : d'.task.network = d.task.network)
    (hlog : d'.log = d.log) : d'.Grows n := by
  rw [Grows, execution, hnetwork, hlog]
  exact h

/-- A message goes to a process, which may be gone. -/
theorem Grows.fed (h : d.Grows n) {s : Send} {network : Network}
    (hoffer : d.task.network.offer s.1 ⟨0, s.2⟩ = .taken network ∨
      d.task.network.offer s.1 ⟨0, s.2⟩ = .gone ∧ network = d.task.network)
    (hnetwork : d'.task.network = network) (hlog : d'.log = d.log ++ [.fed s.1 s.2]) :
    d'.Grows n := by
  rw [Grows, execution, hnetwork, hlog]
  exact Execution.Reached.fed h hoffer

theorem Grows.goesOn (h : d.Grows n) (hgoes : d.GoesOn d') : d'.Grows n := by
  cases hgoes with
  | sends _ hoffer => exact h.fed (.inl hoffer) rfl rfl
  | misses _ hoffer => exact h.fed (.inr ⟨hoffer, rfl⟩) rfl rfl
  | rejected _ hoffer => exact h.fed (.inr ⟨hoffer, rfl⟩) rfl rfl
  | begins _ _ hbegin => exact h.of_eq (PipelineTask.of_begin?_eq_some hbegin).1.2.1 rfl
  | refused => exact h.of_eq rfl rfl
  | turns => exact h.of_eq rfl rfl
  | finished => exact h.of_eq rfl rfl
  | outOfOrder => exact h.of_eq rfl rfl

theorem Grows.moves (h : d.Grows n) (hmoves : d.Moves move d') : d'.Grows n := by
  cases hmoves with
  | goesOn _ hgoes => exact h.goesOn hgoes
  | steps hq hstep => exact Execution.Reached.step h hq hstep
  | aborts =>
    have habort : d.execution.move? .abort =
        some { d.execution with network := d.task.network.abort } := rfl
    obtain ⟨events, hmakes⟩ := Execution.makes_of_move? habort
    exact Execution.Reached.of_makes (x := d.execution) h hmakes
  | finishes => exact h.of_eq rfl rfl
  | rests => exact h
  | sets => exact h.of_eq rfl rfl

end Drive

end SeriesPipeline
