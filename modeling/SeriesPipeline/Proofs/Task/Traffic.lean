import SeriesPipeline.Proofs.Replay.Drive
import SeriesPipeline.Proofs.Task.Moves
import SeriesPipeline.Replay.File

/-!
# Traffic

A task with any number of clients, who share its input: they make calls on it, report failures to it,
or replay batches or files into it. Clients, processes and the task itself make one move at a time,
in any order.
-/

namespace SeriesPipeline

/-! ## Clients -/

/-- How far a call has come. -/
inductive CallPhase where
  | fresh
  | sending (sends : List Send)
  | returned
  | rejected

/-- How far a report of a failure has come. It is recorded first. -/
inductive ReportPhase where
  | recording
  | requesting
  | done

inductive ReplayPhase where
  | opening (mode : ReplayMode) (path : String) (found : Found)
  | feeding (r : Replay)
  /-- Nothing more is fed, but the task does not know yet. -/
  | ended (outcome : Except Failure Unit)
  /-- The task is to fail with the replay. -/
  | failing (cause : Failure)
  | aborting (cause : Failure)
  | reported (result : Except Failure Unit)

inductive Client where
  | call (c : Call) (phase : CallPhase)
  | report (cause : Failure) (phase : ReportPhase)
  | replay (phase : ReplayPhase)

/-- What a client does next, and what it is then. -/
inductive Intent where
  | send (s : Send) (sent rejected : Client)
  | begin (c : Call) (begun : List Send → Client) (refused : Client)
  /-- Nobody else is concerned, but for the clock. -/
  | turn (clock : Clock) (next : Client)
  | record (cause : Failure) (next : Client)
  | requestAbort (next : Client)
  | rest

def CallPhase.intent (clock : Clock) (c : Call) : CallPhase → Intent
  | .fresh => .begin c (fun sends => .call c (.sending sends)) (.call c .rejected)
  | .sending (s :: sends) => .send s (.call c (.sending sends)) (.call c .rejected)
  | .sending [] => .turn clock (.call c .returned)
  | .returned | .rejected => .rest

def ReportPhase.intent (cause : Failure) : ReportPhase → Intent
  | .recording => .record cause (.report cause .requesting)
  | .requesting => .requestAbort (.report cause .done)
  | .done => .rest

/-- What a replay does that is under way. -/
def Replay.intent (clock : Clock) (name : String) (r : Replay) : Intent :=
  match r.sends, r.calls with
  | s :: sends, _ =>
    .send s (.replay (.feeding { r with sends })) (.replay (.ended (.error (.inputClosed name))))
  | [], c :: calls =>
    .begin c (fun sends => .replay (.feeding { r with calls, sends }))
      (.replay (.ended (.error (.inputClosed name))))
  | [], [] =>
    match r.next clock with
    | .finished => .turn clock (.replay (.ended (.ok ())))
    | .waiting => .rest
    | .outOfOrder cause => .turn clock (.replay (.ended (.error cause)))
    | .ready clock r => .turn clock (.replay (.feeding r))

/-- What a replay does that has ended. -/
def Replay.closing (clock : Clock) (t : PipelineTask) : Except Failure Unit → Intent
  | .ok () => .turn clock (.replay (.reported (.ok ())))
  | .error cause =>
    match cause, t.failure with
    | .inputClosed name, some first => .turn clock (.replay (.reported (.error (.task name first))))
    | cause, _ => .turn clock (.replay (.failing cause))

def ReplayPhase.intent (clock : Clock) (t : PipelineTask) : ReplayPhase → Intent
  | .opening mode path found =>
    match replayFile path found with
    | .ok batches => .turn clock (.replay (.feeding (.new mode batches)))
    | .error cause => .turn clock (.replay (.ended (.error cause)))
  | .feeding r => r.intent clock t.name
  | .ended outcome => Replay.closing clock t outcome
  | .failing cause => .record (.replay cause) (.replay (.aborting cause))
  | .aborting cause => .requestAbort (.replay (.reported (.error cause)))
  | .reported _ => .rest

def Client.intent (clock : Clock) (t : PipelineTask) : Client → Intent
  | .call c phase => phase.intent clock c
  | .report cause phase => phase.intent cause
  | .replay phase => phase.intent clock t

theorem Client.intent_ended (clock : Clock) (t : PipelineTask) (outcome : Except Failure Unit) :
    (Client.replay (.ended outcome)).intent clock t = Replay.closing clock t outcome :=
  rfl

/-- A replay that was stopped reports the failure of the task. -/
theorem Replay.closing_of_failure {t : PipelineTask} {first : Failure}
    (hfirst : t.failure = some first) (clock : Clock) (name : String) :
    closing clock t (.error (.inputClosed name)) =
      .turn clock (.replay (.reported (.error (.task name first)))) := by
  unfold closing
  rw [hfirst]

/-- A client that has not done anything yet. -/
inductive Client.IsNew : Client → Prop where
  | call (c : Call) : IsNew (.call c .fresh)
  | report (cause : Failure) : IsNew (.report cause .recording)
  | batches (mode : ReplayMode) (batches : List Batch) :
    IsNew (.replay (.feeding (.new mode batches)))
  | file (mode : ReplayMode) (path : String) (found : Found) :
    IsNew (.replay (.opening mode path found))

/-! ## Moves -/

structure Traffic where
  clock : Clock
  task : PipelineTask
  clients : List Client
  /-- The calls that were begun, with the numbers of the clients. -/
  begun : List (Nat × Call)
  /-- The messages that were given to processes, with the numbers of the clients. -/
  given : List (Nat × Send)
  log : List Event

namespace Traffic

inductive Move where
  | client (number : Nat)
  | task (move : PipelineTask.Move)
  /-- Somebody sets the clock. -/
  | set (t : Instant)

def start (clock : Clock) (p : Plan) (clients : List Client) : Traffic :=
  ⟨clock, .launch p, clients, [], [], []⟩

/-- Client number `i` goes on. A close for a process that is gone is not missed. -/
def act? (x : Traffic) (i : Nat) : Intent → Option Traffic
  | .send s sent rejected =>
    let x' : Traffic := { x with given := x.given ++ [(i, s)], log := x.log ++ [.fed s.1 s.2] }
    match x.task.offer s with
    | .taken task => some { x' with task, clients := x.clients.set i sent }
    | .gone => some { x' with clients := x.clients.set i (if s.2.isClose then sent else rejected) }
    | .full => none
  | .begin c begun refused =>
    match x.task.begin? c with
    | some (task, sends) =>
      some { x with task, clients := x.clients.set i (begun sends), begun := x.begun ++ [(i, c)] }
    | none => some { x with clients := x.clients.set i refused }
  | .turn clock next => some { x with clock, clients := x.clients.set i next }
  | .record cause next =>
    some { x with task := x.task.record cause, clients := x.clients.set i next }
  | .requestAbort next =>
    some { x with task := x.task.requestAbort, clients := x.clients.set i next }
  | .rest => none

/-- What a move of the task is noted as. -/
def eventsOf (x : Traffic) : PipelineTask.Move → List Event
  | .step k => (x.task.network.processes[k]?).toList.flatMap (·.events x.clock.now k)
  | _ => []

def move? (x : Traffic) : Move → Option Traffic
  | .client i => (x.clients[i]?).bind fun client => x.act? i (client.intent x.clock x.task)
  | .task move =>
    (x.task.move? x.clock.now move).map fun task => { x with task, log := x.log ++ x.eventsOf move }
  | .set t => some { x with clock := x.clock.set t }

/-- Makes moves one after the other, if all of them can be made. -/
def run (x : Traffic) (moves : List Move) : Option Traffic := moves.foldlM move? x

/-- What comes of an intent of client number `i`. -/
inductive Acts (x : Traffic) (i : Nat) : Intent → Traffic → Prop where
  | sends {s : Send} {sent rejected : Client} {network : Network}
    (hoffer : x.task.network.offer s.1 ⟨0, s.2⟩ = .taken network) :
    Acts x i (.send s sent rejected) { x with
      task := { x.task with network }, clients := x.clients.set i sent
      given := x.given ++ [(i, s)], log := x.log ++ [.fed s.1 s.2] }
  | misses {s : Send} {sent rejected : Client}
    (hoffer : x.task.network.offer s.1 ⟨0, s.2⟩ = .gone) (hclose : s.2 = .close) :
    Acts x i (.send s sent rejected) { x with
      clients := x.clients.set i sent
      given := x.given ++ [(i, s)], log := x.log ++ [.fed s.1 s.2] }
  | rejected {s : Send} {sent rejected : Client}
    (hoffer : x.task.network.offer s.1 ⟨0, s.2⟩ = .gone) (hclose : s.2 ≠ .close) :
    Acts x i (.send s sent rejected) { x with
      clients := x.clients.set i rejected
      given := x.given ++ [(i, s)], log := x.log ++ [.fed s.1 s.2] }
  | begins {c : Call} {begun : List Send → Client} {refused : Client} {task : PipelineTask}
    {sends : List Send} (hbegin : x.task.begin? c = some (task, sends)) :
    Acts x i (.begin c begun refused) { x with
      task, clients := x.clients.set i (begun sends), begun := x.begun ++ [(i, c)] }
  | refused {c : Call} {begun : List Send → Client} {refused : Client}
    (hbegin : x.task.begin? c = none) :
    Acts x i (.begin c begun refused) { x with clients := x.clients.set i refused }
  | turns (clock : Clock) (next : Client) :
    Acts x i (.turn clock next) { x with clock, clients := x.clients.set i next }
  | records (cause : Failure) (next : Client) :
    Acts x i (.record cause next) { x with
      task := x.task.record cause, clients := x.clients.set i next }
  | requests (next : Client) :
    Acts x i (.requestAbort next) { x with
      task := x.task.requestAbort, clients := x.clients.set i next }

/-- What a move comes to. -/
inductive Moves (x : Traffic) : Move → Traffic → Prop where
  | acts {i : Nat} {client : Client} {x' : Traffic} (hclient : x.clients[i]? = some client)
    (hacts : x.Acts i (client.intent x.clock x.task) x') : Moves x (.client i) x'
  | moves {move : PipelineTask.Move} {task : PipelineTask}
    (hmoves : x.task.Moves x.clock.now move task) :
    Moves x (.task move) { x with task, log := x.log ++ x.eventsOf move }
  | sets (t : Instant) : Moves x (.set t) { x with clock := x.clock.set t }

variable {x x' y : Traffic} {i : Nat} {move : Move} {moves : List Move}

theorem acts_of_act? {intent : Intent} (h : x.act? i intent = some x') : x.Acts i intent x' := by
  unfold act? at h
  split at h
  · rename_i s sent rejected
    rw [PipelineTask.offer] at h
    cases hoffer : x.task.network.offer s.1 ⟨0, s.2⟩ with
    | taken network =>
      rw [hoffer] at h
      cases h
      exact .sends hoffer
    | gone =>
      rw [hoffer] at h
      dsimp only [Offer.map] at h
      split at h
      · rename_i hclose
        cases h
        exact .misses hoffer (Message.isClose_iff.1 hclose)
      · rename_i hclose
        cases h
        exact .rejected hoffer fun h => hclose (Message.isClose_iff.2 h)
    | full =>
      rw [hoffer] at h
      cases h
  · split at h
    · rename_i hbegin
      cases h
      exact .begins hbegin
    · rename_i hbegin
      cases h
      exact .refused hbegin
  · cases h
    exact .turns _ _
  · cases h
    exact .records _ _
  · cases h
    exact .requests _
  · cases h

theorem moves_of_move? (h : x.move? move = some x') : x.Moves move x' := by
  cases move with
  | client i =>
    obtain ⟨client, hclient, h⟩ := Option.bind_eq_some_iff.1 h
    exact .acts hclient (acts_of_act? h)
  | task move =>
    obtain ⟨task, htask, rfl⟩ := Option.map_eq_some_iff.1 h
    exact .moves (PipelineTask.moves_of_move? htask)
  | set t =>
    cases h
    exact .sets t

/-- What every move keeps, all moves keep. -/
theorem run_induction {P : Traffic → Prop} (h : ∀ x x' move, P x → x.Moves move x' → P x')
    (hx : P x) (hrun : x.run moves = some y) : P y := by
  induction moves generalizing x with
  | nil =>
    cases hrun
    exact hx
  | cons move rest ih =>
    rw [run, List.foldlM_cons] at hrun
    obtain ⟨x', hmove, hrest⟩ := Option.bind_eq_some_iff.1 hrun
    exact ih (h x x' move hx (moves_of_move? hmove)) hrest

/-! ## What lasts -/

theorem Acts.later {intent : Intent} (h : x.Acts i intent x') : x.task.Later x'.task := by
  cases h with
  | sends hoffer => exact PipelineTask.later_offer hoffer
  | misses => exact .refl x.task
  | rejected => exact .refl x.task
  | begins hbegin => exact PipelineTask.later_begin? hbegin
  | refused => exact .refl x.task
  | turns => exact .refl x.task
  | records cause => exact PipelineTask.later_record x.task cause
  | requests => exact PipelineTask.later_requestAbort x.task

theorem Moves.later (h : x.Moves move x') : x.task.Later x'.task := by
  cases h with
  | acts _ hacts => exact hacts.later
  | moves hmoves => exact hmoves.later
  | sets => exact .refl x.task

theorem later_of_run (hrun : x.run moves = some y) : x.task.Later y.task :=
  run_induction (P := fun y => x.task.Later y.task) (fun _ _ _ h hmoves => h.trans hmoves.later)
    (.refl x.task) hrun

/-- The network comes from `n` by what the log notes. -/
def Grows (n : Network) (x : Traffic) : Prop :=
  (⟨x.task.network, fun _ => [], x.log⟩ : Execution).Reached n (fedTo · x.log)

variable {n : Network}

theorem grows_start (clock : Clock) (p : Plan) (clients : List Client) :
    (start clock p clients).Grows p.network :=
  Execution.reached_start p.isNew_of_mem_network

theorem Grows.acts (h : x.Grows n) {intent : Intent} (hacts : x.Acts i intent x') :
    x'.Grows n := by
  cases hacts with
  | sends hoffer => exact Execution.Reached.fed h (.inl hoffer)
  | misses hoffer => exact Execution.Reached.fed h (.inr ⟨hoffer, rfl⟩)
  | rejected hoffer => exact Execution.Reached.fed h (.inr ⟨hoffer, rfl⟩)
  | begins hbegin =>
    rw [Grows, (PipelineTask.of_begin?_eq_some hbegin).1.2.1]
    exact h
  | refused => exact h
  | turns => exact h
  | records => exact ⟨h.processes, h.actors, h.feeds, h.results.cache, h.results.alerts⟩
  | requests => exact h

/-- To a process, an abort is an abort or nothing. -/
theorem Grows.abortAt (h : x.Grows n) (k : Nat) :
    ({ x with task := { x.task with network := x.task.network.abortAt k } } : Traffic).Grows n := by
  have hmakes : (⟨x.task.network, fun _ => [], x.log⟩ : Execution).Makes []
      ⟨x.task.network.abortAt k, fun _ => [], x.log⟩ := by
    refine ⟨(List.append_nil _).symm, rel_of_map (x.task.network.getElem?_abortAt k) ?_, nofun,
      fun _ => rfl, Execution.gains_of_no_reaction _ rfl rfl⟩
    intro i p _
    split
    · exact .aborts p
    · exact .idle p
  exact Execution.Reached.of_makes (x := ⟨x.task.network, fun _ => [], x.log⟩) h hmakes

theorem Grows.step (h : x.Grows n) (hmoves : x.Moves move x') : x'.Grows n := by
  cases hmoves with
  | acts _ hacts => exact h.acts hacts
  | moves hmoves =>
    cases hmoves with
    | @steps k network hstep =>
      obtain ⟨q, hq, -⟩ := Network.exists_process_of_isSome_step? (Option.isSome_of_eq_some hstep)
      rw [eventsOf, hq, Option.toList_some, List.flatMap_singleton]
      exact Execution.Reached.step h hq hstep
    | aborts =>
      rw [eventsOf, List.append_nil]
      · exact h.abortAt _
      · nofun
    | shuts =>
      rw [eventsOf, List.append_nil]
      · exact h
      · nofun
    | finishes =>
      rw [eventsOf, List.append_nil]
      · exact h
      · nofun
  | sets => exact h

end Traffic

end SeriesPipeline
