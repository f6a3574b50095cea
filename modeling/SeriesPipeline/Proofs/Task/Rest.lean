import SeriesPipeline.Proofs.Replay.Alone
import SeriesPipeline.Proofs.Replay.Reports
import SeriesPipeline.Proofs.Stage.Origins

/-!
# Tasks at rest

A task that has settled and whose alerts were picked up stays as it is until somebody calls it. The
alerts of a task are of that task, whatever it is asked to do.
-/

namespace SeriesPipeline

/-! ## Settled networks -/

theorem Process.isIdle_abort {p : Process} (h : p.isIdle = true) : p.abort.isIdle = true := by
  rw [abort]
  split
  · exact h
  · rfl

namespace Network

variable {n : Network}

theorem isIdle_of_stuck {now : Instant} (hcapacity : 1 ≤ n.capacity)
    (hstuck : ∀ k, n.step? now k = none) : n.processes.all (·.isIdle) = true := by
  refine List.all_eq_true.2 fun p hp => ?_
  obtain ⟨i, hi⟩ := List.mem_iff_getElem?.1 hp
  obtain ⟨hout, hopen⟩ := waits_of_stuck hcapacity hstuck hi
  rw [Process.isIdle, hout]
  cases hphase : p.phase with
  | running =>
    obtain ⟨-, hin⟩ := hopen (by rw [hphase]; rfl)
    rw [hin]
    rfl
  | failed cause =>
    obtain ⟨hrunning, -⟩ := hopen (by rw [hphase]; rfl)
    cases hphase.symm.trans hrunning
  | leaving failure =>
    obtain ⟨hrunning, -⟩ := hopen (by rw [hphase]; rfl)
    cases hphase.symm.trans hrunning
  | closed failure => rfl
  | aborted => rfl

theorem settle_of_isIdle (h : n.processes.all (·.isIdle) = true) (now : Instant) :
    n.settle now = n := by
  obtain ⟨⟨ks, hks⟩, -⟩ := settle_eq now n
  -- an idle network has no first step
  cases ks with
  | nil => exact (Option.some.inj hks).symm
  | cons k ks =>
    rw [List.foldlM_cons, step?_of_isIdle h] at hks
    cases hks

theorem abort_of_hasExited (h : n.hasExited = true) : n.abort = n := by
  have hsame : n.processes.map (·.abort) = n.processes.map id :=
    List.map_congr_left fun p hp => if_pos (List.all_eq_true.1 h p hp)
  rw [abort, hsame, List.map_id]

theorem hasExited_abort (n : Network) : n.abort.hasExited = true := by
  refine List.all_eq_true.2 fun p hp => ?_
  obtain ⟨p, -, rfl⟩ := List.mem_map.1 hp
  exact Execution.hasExited_abort p

end Network

/-! ## Rest -/

namespace PipelineTask

/-- Nothing is left to do, and no alert is waiting. -/
structure AtRest (t : PipelineTask) : Prop where
  idle : t.network.processes.all (·.isIdle) = true
  aborted : (t.abortRequested || t.network.isDoomed) = true → t.network.hasExited = true
  ended : t.network.hasExited = true → t.inlets = none ∧ t.finished = true
  alerts : t.network.results.alerts = []

variable {t : PipelineTask}

theorem AtRest.settle (h : t.AtRest) (now : Instant) : t.settle now = t := by
  rw [PipelineTask.settle, Network.settle_of_isIdle h.idle]
  have habort : t.superviseAbort = t := by
    rw [superviseAbort]
    split
    · rename_i hcalled
      rw [Network.abort_of_hasExited (h.aborted hcalled)]
    · rfl
  rw [habort, superviseEnd]
  split
  · rename_i hexited
    obtain ⟨hinlets, hfinished⟩ := h.ended hexited
    rw [← hinlets, ← hfinished]
  · rfl

theorem AtRest.takeAlerts (h : t.AtRest) : t.takeAlerts = (t, []) := by
  rw [PipelineTask.takeAlerts, ← h.alerts]

theorem isIdle_superviseAbort (h : t.network.processes.all (·.isIdle) = true) :
    t.superviseAbort.network.processes.all (·.isIdle) = true := by
  rw [superviseAbort]
  split
  · refine List.all_eq_true.2 fun _ hp => ?_
    obtain ⟨p, hmem, rfl⟩ := List.mem_map.1 hp
    exact Process.isIdle_abort (List.all_eq_true.1 h p hmem)
  · exact h

theorem hasExited_superviseAbort (h : (t.superviseAbort.abortRequested ||
    t.superviseAbort.network.isDoomed) = true) : t.superviseAbort.network.hasExited = true := by
  rw [superviseAbort] at h ⊢
  split
  · exact t.network.hasExited_abort
  · rename_i hcalled
    rw [if_neg hcalled] at h
    exact absurd h hcalled

/-- A settled task whose alerts are picked up rests. -/
theorem atRest_settle (hcapacity : 1 ≤ t.network.capacity) (now : Instant) :
    (t.settle now).takeAlerts.1.AtRest := by
  have hidle : (t.network.settle now).processes.all (·.isIdle) = true :=
    Network.isIdle_of_stuck hcapacity (Network.settle_eq now t.network).2
  rw [PipelineTask.settle]
  generalize hstopped : ({ t with network := t.network.settle now } : PipelineTask) = settled
  have hidle := isIdle_superviseAbort (t := settled) (hstopped ▸ hidle)
  have hexited := hasExited_superviseAbort (t := settled)
  rw [superviseEnd]
  split
  · rename_i hends
    exact ⟨hidle, fun _ => hends, fun _ => ⟨rfl, rfl⟩, rfl⟩
  · rename_i hgoesOn
    exact ⟨hidle, hexited, fun hends => absurd hends hgoesOn, rfl⟩

end PipelineTask

/-! ## Whose alerts -/

/-- All alerts are of the task, and so will be those that are still to come. -/
structure Network.Owned (task : String) (n : Network) : Prop where
  capacity : 1 ≤ n.capacity
  operators : ∀ (k : Nat) (p : Process), n.processes[k]? = some p → p.stage.operator.AlertsOf task
  alerts : ∀ a ∈ n.results.alerts, a.task = task

namespace Network

variable {n n' : Network} {task : String} {now : Instant}

theorem owned_network (p : Plan) : p.network.Owned p.name := by
  refine ⟨Nat.le_max_left 1 _, fun k q hq => ?_, nofun⟩
  rw [Plan.getElem?_processes] at hq
  obtain ⟨s, -, rfl⟩ := Option.map_eq_some_iff.1 hq
  exact Operator.alertsOf_ofNode ..

theorem Owned.steps {i : Nat} (h : n.Owned task) (hsteps : n.Steps now i n') : n'.Owned task := by
  obtain ⟨hcapacity, hoperators, halerts⟩ := h
  cases hsteps with
  | takes hp =>
    obtain ⟨hoperator, hreaction⟩ := Stage.receive_task now (hoperators i _ hp) _
    exact ⟨hcapacity, forall_set hoperators hoperator,
      List.forall_mem_append.2 ⟨halerts, hreaction⟩⟩
  | @records p _ hp => exact ⟨hcapacity, forall_set hoperators (hoperators i p hp :), halerts⟩
  | @leaves p _ hp => exact ⟨hcapacity, forall_set hoperators (hoperators i p hp :), halerts⟩
  | @sends p q _ _ _ hp _ hq =>
    have hreceiver := hoperators _ q hq
    exact ⟨hcapacity, forall_set (forall_set hoperators (hoperators i p hp :)) hreceiver, halerts⟩
  | @misses p _ _ _ hp => exact ⟨hcapacity, forall_set hoperators (hoperators i p hp :), halerts⟩

theorem Owned.abortAt (h : n.Owned task) (i : Nat) : (n.abortAt i).Owned task := by
  refine ⟨h.capacity, fun k p hp => ?_, h.alerts⟩
  rw [getElem?_abortAt] at hp
  obtain ⟨q, hq, rfl⟩ := Option.map_eq_some_iff.1 hp
  have hoperator := h.operators k q hq
  split
  · rw [Process.abort]
    split <;> exact hoperator
  · exact hoperator

theorem Owned.offer {i : Nat} {e : Envelope} (h : n.Owned task) (hoffer : n.offer i e = .taken n') :
    n'.Owned task := by
  obtain ⟨p, hp, -, rfl⟩ := exists_set_of_offer hoffer
  exact ⟨h.capacity, forall_set h.operators (h.operators i p hp :), h.alerts⟩

end Network

namespace PipelineTask

variable {t t' : PipelineTask} {name : String} {now : Instant}

theorem owned_of_move? {move : Move} (h : t.network.Owned name)
    (hmove : t.move? now move = some t') : t'.network.Owned name := by
  cases moves_of_move? hmove with
  | steps hstep => exact h.steps (Network.steps_of_step? hstep)
  | aborts => exact h.abortAt _
  | shuts => exact h
  | finishes => exact h

theorem owned_settle (h : t.network.Owned name) (now : Instant) :
    (t.settle now).network.Owned name := by
  obtain ⟨moves, hmoves⟩ := exists_moves_settle now t
  generalize t.settle now = settled at hmoves ⊢
  induction moves generalizing t with
  | nil =>
    cases hmoves
    exact h
  | cons move moves ih =>
    rw [List.foldlM_cons] at hmoves
    obtain ⟨next, hmove, hrest⟩ := Option.bind_eq_some_iff.1 hmoves
    exact ih (owned_of_move? h hmove) hrest

theorem owned_deliver (h : t.network.Owned name) (now : Instant) (sends : List Send) :
    (t.deliver now sends).1.network.Owned name := by
  induction sends generalizing t with
  | nil => exact h
  | cons s rest ih =>
    rw [deliver]
    split
    · rename_i hoffer
      obtain ⟨network, htaken, rfl⟩ := of_offer_eq_taken hoffer
      exact ih (owned_settle (h.offer htaken) now)
    · exact h
    · split
      · exact ih h
      · exact h

theorem owned_call (h : t.network.Owned name) (now : Instant) (c : Call) :
    (t.call now c).1.network.Owned name := by
  rw [call]
  split
  · rename_i t' sends hbegin
    refine owned_deliver ?_ now sends
    obtain rfl | ⟨-, rfl⟩ := eq_of_begin? hbegin
    · exact h
    · exact h
  · exact h

theorem owned_fail (h : t.network.Owned name) (cause : Failure) :
    (t.fail cause).network.Owned name :=
  ⟨h.capacity, h.operators, h.alerts⟩

theorem owned_takeAlerts (h : t.network.Owned name) : t.takeAlerts.1.network.Owned name :=
  ⟨h.capacity, h.operators, nofun⟩

end PipelineTask

end SeriesPipeline
