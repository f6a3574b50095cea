import SeriesPipeline.Proofs.Task.Progress
import SeriesPipeline.Task.Input

/-!
# Moves of tasks

What a task does by itself, one move at a time: a process makes a step, a process is aborted once
that is called for, and when all processes have exited the input closes and the task ends. All that a
step of a process can come to is said once. A failure is recorded before anything follows from it, so
a process that has failed or was aborted finds one recorded.
-/

namespace SeriesPipeline

/-! ## Steps of processes -/

/-- What one step of process number `i` makes of a network. -/
inductive Network.Steps (now : Instant) (n : Network) (i : Nat) : Network → Prop where
  | takes {p : Process} {e : Envelope} {inbox : List Envelope} (hp : n.processes[i]? = some p)
    (hout : p.outbox = []) (hphase : p.phase = .running) (hin : p.inbox = e :: inbox) :
    Steps now n i { n with
      results := n.results.add (p.stage.receive now e).2.1
      processes := n.processes.set i { p with
        stage := (p.stage.receive now e).1
        inbox
        outbox := p.broadcast (p.stage.receive now e).2.1.sent
        phase := phaseAfter (p.stage.receive now e).2.2 } }
  | records {p : Process} {cause : Failure} (hp : n.processes[i]? = some p) (hout : p.outbox = [])
    (hphase : p.phase = .failed cause) :
    Steps now n i { n with
      results := n.results.record cause
      processes := n.processes.set i { p with phase := .leaving (some cause) } }
  | leaves {p : Process} {failure : Option Failure} (hp : n.processes[i]? = some p)
    (hout : p.outbox = []) (hphase : p.phase = .leaving failure) :
    Steps now n i { n with
      processes := n.processes.set i
        { p with inbox := [], outbox := p.broadcast [.close], phase := .closed failure } }
  | sends {p q : Process} {outlet : Outlet} {m : Message} {outbox : List (Outlet × Message)}
    (hp : n.processes[i]? = some p) (hout : p.outbox = (outlet, m) :: outbox)
    (hq : n.processes[i + 1 + outlet.between]? = some q) (hopen : q.phase.isOpen = true) :
    Steps now n i { n with
      processes := (n.processes.set i { p with outbox }).set (i + 1 + outlet.between)
        { q with inbox := q.inbox ++ [⟨outlet.port, m⟩] } }
  /-- The message is lost to a process that has closed. -/
  | misses {p : Process} {outlet : Outlet} {m : Message} {outbox : List (Outlet × Message)}
    (hp : n.processes[i]? = some p) (hout : p.outbox = (outlet, m) :: outbox) :
    Steps now n i { n with processes := n.processes.set i { p with outbox } }

namespace Network

variable {now : Instant} {n n' : Network} {i k : Nat} {p q : Process}

theorem steps_of_turn {r : Results} {p' : Process} (hp : n.processes[i]? = some p)
    (hout : p.outbox = []) (h : turn now n.results p = some (r, p')) :
    n.Steps now i { n with results := r, processes := n.processes.set i p' } := by
  unfold turn at h
  split at h
  · rename_i hphase
    split at h
    · cases h
    · rename_i e inbox hin
      cases h
      exact .takes hp hout hphase hin
  · rename_i cause hphase
    cases h
    exact .records hp hout hphase
  · rename_i failure hphase
    cases h
    exact .leaves hp hout hphase
  · cases h
  · cases h

theorem steps_of_step? (h : n.step? now i = some n') : n.Steps now i n' := by
  rw [step?_eq] at h
  obtain ⟨p, hp, h⟩ := Option.bind_eq_some_iff.1 h
  obtain ⟨⟨r, p', rest⟩, hhead, rfl⟩ := Option.map_eq_some_iff.1 h
  unfold stepHead at hhead
  split at hhead
  · rename_i hout
    obtain ⟨⟨r, p'⟩, hturn, heq⟩ := Option.map_eq_some_iff.1 hhead
    cases heq
    dsimp only
    rw [take_append_cons_drop hp]
    exact steps_of_turn hp hout hturn
  · rename_i outlet m outbox hout
    split at hhead
    · rename_i hoffer
      cases hhead
      obtain ⟨q, hq, hopen, rfl⟩ := of_offerTo_eq_taken hoffer
      rw [List.getElem?_drop] at hq
      dsimp only
      rw [take_append_cons_set_drop hp]
      exact .sends hp hout hq hopen
    · cases hhead
      dsimp only
      rw [take_append_cons_drop hp]
      exact .misses hp hout
    · cases hhead

/-- What every process has by its number, all have when one of them is replaced. -/
theorem forall_set {P : Nat → Process → Prop} {processes : List Process}
    (h : ∀ k q, processes[k]? = some q → P k q) (hp : P i p) :
    ∀ k q, (processes.set i p)[k]? = some q → P k q := by
  intro k q hq
  rw [getElem?_set_eq_map] at hq
  obtain ⟨q', hq', rfl⟩ := Option.map_eq_some_iff.1 hq
  split
  · rename_i hk
    exact hk ▸ hp
  · exact h k q' hq'

/-- Stops process number `k` at once. -/
def abortAt (n : Network) (k : Nat) : Network :=
  { n with processes := n.processes.modify k (·.abort) }

theorem getElem?_abortAt (n : Network) (i k : Nat) :
    (n.abortAt i).processes[k]? = n.processes[k]?.map fun p => if i = k then p.abort else p := by
  rw [abortAt, List.getElem?_modify]
  by_cases hk : i = k <;> simp [hk]

end Network

/-! ## Failures -/

/-- Whether a process has left with a failure or was aborted. -/
def Phase.isBroken : Phase → Bool
  | .leaving failure | .closed failure => failure.isSome
  | .aborted => true
  | .running | .failed _ => false

/-- The first failure stays. -/
theorem Results.failure_record (r : Results) (cause : Failure) :
    (r.record cause).failure.isSome ∧
      ∀ first, r.failure = some first → (r.record cause).failure = some first := by
  unfold Results.record
  cases r.failure with
  | none => exact ⟨rfl, nofun⟩
  | some first => exact ⟨rfl, fun _ h => h⟩

namespace Network

variable {now : Instant} {n n' : Network} {i : Nat}

/-- Behind every broken process stands a recorded failure. -/
def Blames (n : Network) : Prop :=
  ∀ (k : Nat) (p : Process), n.processes[k]? = some p → p.phase.isBroken = true →
    n.results.failure.isSome

theorem Steps.failure (h : n.Steps now i n') {first : Failure}
    (hfirst : n.results.failure = some first) : n'.results.failure = some first := by
  cases h with
  | records => exact (n.results.failure_record _).2 first hfirst
  | takes => exact hfirst
  | leaves => exact hfirst
  | sends => exact hfirst
  | misses => exact hfirst

theorem isBroken_phaseAfter (progress : Progress) : (phaseAfter progress).isBroken = false := by
  cases progress <;> rfl

/-- A process records its failure before it leaves with it. -/
theorem Blames.steps (h : n.Blames) (hsteps : n.Steps now i n') : n'.Blames := by
  cases hsteps with
  | takes hp =>
    refine forall_set h fun hbroken => ?_
    rw [isBroken_phaseAfter] at hbroken
    cases hbroken
  | records => exact fun _ _ _ _ => (n.results.failure_record _).1
  | @leaves p _ hp _ hphase => exact forall_set h fun hbroken => h i p hp (hphase ▸ hbroken)
  | @sends p q _ _ _ hp _ hq =>
    refine forall_set (forall_set h (h i p hp)) fun hbroken => ?_
    exact h _ q hq hbroken
  | @misses p _ _ _ hp => exact forall_set h (h i p hp)

/-- Only a task with a failure is aborted. -/
theorem blames_of_isSome (h : n.results.failure.isSome) : n.Blames := fun _ _ _ _ => h

theorem Blames.isSome_of_isDoomed (h : n.Blames) (hdoomed : n.isDoomed = true) :
    n.results.failure.isSome := by
  obtain ⟨p, hp, hfatal⟩ := List.any_eq_true.1 hdoomed
  obtain ⟨k, hk⟩ := List.mem_iff_getElem?.1 hp
  obtain ⟨cause, hcause, -⟩ := (Option.any_eq_true _ _).1 hfatal
  refine h k p hk ?_
  rw [Process.exitFailure?] at hcause
  split at hcause
  · rename_i failure hphase
    rw [hphase]
    split at hcause
    · rw [hcause]
      rfl
    · cases hcause
  · cases hcause

end Network

/-! ## Tasks -/

namespace PipelineTask

/-- Notes a failure, unless there was one before. -/
def record (t : PipelineTask) (cause : Failure) : PipelineTask :=
  { t with network := { t.network with results := t.network.results.record cause } }

/-- Asks for all processes to be aborted. -/
def requestAbort (t : PipelineTask) : PipelineTask := { t with abortRequested := true }

theorem fail_eq (t : PipelineTask) (cause : Failure) : t.fail cause = (t.record cause).requestAbort :=
  rfl

inductive Move where
  | step (process : Nat)
  /-- A process is aborted, if that is called for. -/
  | abort (process : Nat)
  /-- The input closes once all processes have exited. -/
  | shut
  /-- The task ends after that. -/
  | finish

def move? (now : Instant) (t : PipelineTask) : Move → Option PipelineTask
  | .step k => (t.network.step? now k).map fun network => { t with network }
  | .abort k =>
    if t.abortRequested || t.network.isDoomed then some { t with network := t.network.abortAt k }
    else none
  | .shut => if t.network.hasExited then some { t with inlets := none } else none
  | .finish =>
    if t.network.hasExited && t.isClosed then some { t with finished := true } else none

/-- What a move comes to. -/
inductive Moves (now : Instant) (t : PipelineTask) : Move → PipelineTask → Prop where
  | steps {k : Nat} {network : Network} (hstep : t.network.step? now k = some network) :
    Moves now t (.step k) { t with network }
  | aborts {k : Nat} (h : t.abortRequested = true ∨ t.network.isDoomed = true) :
    Moves now t (.abort k) { t with network := t.network.abortAt k }
  | shuts (h : t.network.hasExited = true) : Moves now t .shut { t with inlets := none }
  | finishes (h : t.network.hasExited = true) (hinlets : t.inlets = none) :
    Moves now t .finish { t with finished := true }

variable {now : Instant} {t t' : PipelineTask}

theorem moves_of_move? {move : Move} (h : t.move? now move = some t') : t.Moves now move t' := by
  cases move with
  | step k =>
    obtain ⟨network, hstep, rfl⟩ := Option.map_eq_some_iff.1 h
    exact .steps hstep
  | abort k =>
    obtain ⟨hcalled, heq⟩ := Option.ite_none_right_eq_some.1 h
    cases heq
    exact .aborts (Bool.or_eq_true_iff.1 hcalled)
  | shut =>
    obtain ⟨hexited, heq⟩ := Option.ite_none_right_eq_some.1 h
    cases heq
    exact .shuts hexited
  | finish =>
    obtain ⟨hends, heq⟩ := Option.ite_none_right_eq_some.1 h
    cases heq
    obtain ⟨hexited, hclosed⟩ := Bool.and_eq_true_iff.1 hends
    exact .finishes hexited (Option.isNone_iff_eq_none.1 hclosed)

/-- The end of a task is two moves. -/
theorem superviseEnd_eq (now : Instant) (h : t.network.hasExited = true) :
    ∃ t', t.move? now .shut = some t' ∧ t'.move? now .finish = some t.superviseEnd := by
  refine ⟨{ t with inlets := none }, if_pos h, ?_⟩
  rw [superviseEnd, if_pos h]
  exact if_pos (Bool.and_eq_true_iff.2 ⟨h, rfl⟩)

end PipelineTask

/-! ## What lasts -/

/-- Processes that have closed stay closed. -/
def Network.StaysGone (n n' : Network) : Prop :=
  ∀ (k : Nat) (p : Process), n.processes[k]? = some p → p.phase.isOpen = false →
    ∃ p', n'.processes[k]? = some p' ∧ p'.phase.isOpen = false

/-- One task has become the other. What has come about lasts. -/
structure PipelineTask.Later (t t' : PipelineTask) : Prop where
  plan : t'.plan = t.plan
  inlets : t.inlets = none → t'.inlets = none
  failure : ∀ first, t.failure = some first → t'.failure = some first
  abort : t.abortRequested = true → t'.abortRequested = true
  finished : t.finished = true → t'.finished = true
  gone : t.network.StaysGone t'.network

namespace Network

variable {now : Instant} {n n' n'' : Network} {i : Nat} {p p' : Process}

theorem staysGone_of_eq (h : n'.processes = n.processes) : n.StaysGone n' :=
  fun _ p hp hclosed => ⟨p, h ▸ hp, hclosed⟩

theorem StaysGone.trans (h : n.StaysGone n') (h' : n'.StaysGone n'') : n.StaysGone n'' := by
  intro k p hp hclosed
  obtain ⟨p', hp', hclosed'⟩ := h k p hp hclosed
  exact h' k p' hp' hclosed'

/-- One process is replaced, by one that has closed if it had. -/
theorem staysGone_set (hp : n.processes[i]? = some p)
    (hprocesses : n'.processes = n.processes.set i p')
    (h : p.phase.isOpen = false → p'.phase.isOpen = false) : n.StaysGone n' := by
  intro k q hq hclosed
  rw [hprocesses, getElem?_set_eq_map, hq]
  by_cases hk : k = i
  · subst hk
    cases hp.symm.trans hq
    exact ⟨p', by rw [Option.map_some, if_pos rfl], h hclosed⟩
  · exact ⟨q, by rw [Option.map_some, if_neg hk], hclosed⟩

/-- What is offered and taken goes to the end of an open inbox. -/
theorem exists_set_of_offer {e : Envelope} (h : n.offer i e = .taken n') :
    ∃ p, n.processes[i]? = some p ∧ p.phase.isOpen = true ∧
      n' = { n with processes := n.processes.set i { p with inbox := p.inbox ++ [e] } } := by
  rw [offer] at h
  cases hoffer : offerTo n.capacity n.processes i e with
  | taken processes =>
    rw [hoffer] at h
    cases h
    obtain ⟨p, hp, hopen, rfl⟩ := of_offerTo_eq_taken hoffer
    exact ⟨p, hp, hopen, rfl⟩
  | full =>
    rw [hoffer] at h
    cases h
  | gone =>
    rw [hoffer] at h
    cases h

theorem Steps.staysGone (h : n.Steps now i n') : n.StaysGone n' := by
  cases h with
  | takes hp _ hphase =>
    refine staysGone_set hp rfl fun hclosed => ?_
    rw [hphase] at hclosed
    cases hclosed
  | records hp _ hphase =>
    refine staysGone_set hp rfl fun hclosed => ?_
    rw [hphase] at hclosed
    cases hclosed
  | leaves hp => exact staysGone_set hp rfl fun _ => rfl
  | @sends p q outlet m outbox hp hout hq =>
    have hfirst : n.StaysGone { n with processes := n.processes.set i { p with outbox } } :=
      staysGone_set hp rfl id
    refine hfirst.trans (staysGone_set (i := i + 1 + outlet.between) (p := q) ?_ rfl id)
    rw [List.getElem?_set_ne (by omega), hq]
  | misses hp => exact staysGone_set hp rfl id

theorem isOpen_abort (p : Process) (h : p.phase.isOpen = false) : p.abort.phase.isOpen = false := by
  unfold Process.abort
  split
  · exact h
  · rfl

theorem staysGone_abortAt (n : Network) (i : Nat) : n.StaysGone (n.abortAt i) := by
  intro k p hp hclosed
  rw [getElem?_abortAt, hp]
  refine ⟨_, rfl, ?_⟩
  split
  · exact isOpen_abort p hclosed
  · exact hclosed

end Network

namespace PipelineTask

variable {now : Instant} {t t' t'' : PipelineTask}

theorem Later.refl (t : PipelineTask) : t.Later t :=
  ⟨rfl, id, fun _ => id, id, id, Network.staysGone_of_eq rfl⟩

theorem Later.trans (h : t.Later t') (h' : t'.Later t'') : t.Later t'' where
  plan := h'.plan.trans h.plan
  inlets hnone := h'.inlets (h.inlets hnone)
  failure first hfirst := h'.failure first (h.failure first hfirst)
  abort hrequested := h'.abort (h.abort hrequested)
  finished hfinished := h'.finished (h.finished hfinished)
  gone := h.gone.trans h'.gone

theorem Later.isSome_failure (h : t.Later t') (hsome : t.failure.isSome) : t'.failure.isSome := by
  obtain ⟨first, hfirst⟩ := Option.isSome_iff_exists.1 hsome
  rw [h.failure first hfirst]
  rfl

/-- Only a close changes anything about the task when it begins. -/
theorem eq_of_begin? {c : Call} {sends : List Send} (h : t.begin? c = some (t', sends)) :
    t' = t ∨ c = .close ∧ t' = { t with inlets := none } := by
  unfold begin? at h
  split at h
  · cases h
    exact .inl rfl
  · cases h
    exact .inl rfl
  · cases h
    exact .inr ⟨rfl, rfl⟩
  · cases h
    exact .inl rfl
  · cases h

theorem later_begin? {c : Call} {sends : List Send} (h : t.begin? c = some (t', sends)) :
    t.Later t' := by
  obtain rfl | ⟨-, rfl⟩ := eq_of_begin? h
  · exact .refl t'
  · exact ⟨rfl, fun _ => rfl, fun _ => id, id, id, Network.staysGone_of_eq rfl⟩

theorem later_offer {network : Network} {i : Nat} {e : Envelope}
    (h : t.network.offer i e = .taken network) : t.Later { t with network } := by
  obtain ⟨p, hp, -, rfl⟩ := Network.exists_set_of_offer h
  exact ⟨rfl, id, fun _ => id, id, id, Network.staysGone_set hp rfl id⟩

theorem later_record (t : PipelineTask) (cause : Failure) : t.Later (t.record cause) :=
  ⟨rfl, id, (t.network.results.failure_record cause).2, id, id, Network.staysGone_of_eq rfl⟩

theorem later_requestAbort (t : PipelineTask) : t.Later t.requestAbort :=
  ⟨rfl, id, fun _ => id, fun _ => rfl, id, Network.staysGone_of_eq rfl⟩

theorem Moves.later {move : Move} (h : t.Moves now move t') : t.Later t' := by
  cases h with
  | steps hstep =>
    have hsteps := Network.steps_of_step? hstep
    exact ⟨rfl, id, fun _ => hsteps.failure, id, id, hsteps.staysGone⟩
  | aborts => exact ⟨rfl, id, fun _ => id, id, id, t.network.staysGone_abortAt _⟩
  | shuts => exact ⟨rfl, fun _ => rfl, fun _ => id, id, id, Network.staysGone_of_eq rfl⟩
  | finishes => exact ⟨rfl, id, fun _ => id, id, fun _ => rfl, Network.staysGone_of_eq rfl⟩

end PipelineTask

end SeriesPipeline
