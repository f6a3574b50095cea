import SeriesPipeline.Proofs.Task.Rejections

/-!
# What sources take

A source takes what it was given in order. It goes on until it takes a close, and takes nothing
after that. Every batch that it takes is one that it works on.
-/

namespace SeriesPipeline

/-- A source has one port, which is open as long as no close was taken. -/
theorem Process.Follows.of_running_source {p : Plan} {k : Nat} {s : PlannedStage} {n : SourceNode}
    (hkind : s.kind = .source n) {history : List Incident} {q : Process}
    (h : (p.process k s).Follows history q) (hphase : q.phase = .running) :
    ⟨0, .close⟩ ∉ takings history ∧ q.stage.marks.isOpen 0 = true := by
  have hports : s.ports = 1 := by rw [PlannedStage.ports, hkind]
  have hnotAborted : q.phase ≠ .aborted := by
    intro haborted
    cases hphase.symm.trans haborted
  have hrunning := (h.progress hnotAborted).1 hphase
  have honWay : q.stage.OnWay s.ports (takings history) := by
    rw [h.stage]
    exact Stage.onWay_course hrunning
  obtain ⟨port, hopen⟩ :=
    Watermarks.exists_isOpen_of_not_allClosed (honWay.remains (hports ▸ Nat.zero_lt_one))
  obtain ⟨hlt, hnot⟩ := (honWay.isOpen port).1 hopen
  obtain rfl : port = 0 := by omega
  exact ⟨hnot, hopen⟩

/-- The batches among some envelopes. -/
def batchesAmong (envelopes : List Envelope) : List Batch :=
  envelopes.filterMap (·.message.batch?)

/-- How a source stands to the envelopes that it has taken: the close is the last of them, if it is
there, and it is there when the source has left without a failure. -/
structure Process.Heeds (taken : List Envelope) (q : Process) : Prop where
  last : ∀ earlier e, taken = earlier ++ [e] → ⟨0, .close⟩ ∉ earlier
  done : q.phase.isDone = true → ⟨0, .close⟩ ∈ taken
  counted : q.stage.batchesIn = (batchesAmong taken).length

namespace Process

variable {now : Instant} {q q' : Process} {e : Envelope} {inbox : List Envelope}
  {taken : List Envelope}

theorem Heeds.of_eq (h : q.Heeds taken) (hstage : q'.stage = q.stage)
    (hdone : q'.phase.isDone = true → q.phase.isDone = true) : q'.Heeds taken :=
  ⟨h.last, h.done ∘ hdone, hstage ▸ h.counted⟩

/-- A source takes nothing after the close. -/
theorem Heeds.close_notMem (h : q.Heeds taken) {earlier later : List Envelope}
    (heq : taken = earlier ++ e :: later) : ⟨0, .close⟩ ∉ earlier := by
  obtain hnil | ⟨between, e', hconcat⟩ := List.eq_nil_or_concat (e :: later)
  · cases hnil
  · rw [hconcat, List.concat_eq_append, ← List.append_assoc] at heq
    exact fun hclose => h.last _ e' heq (List.mem_append_left _ hclose)

theorem Heeds.takes (h : q.Heeds taken) (hclose : ⟨0, .close⟩ ∉ taken)
    (hopen : q.stage.marks.isOpen 0 = true) (hport : e.port = 0)
    (hstage : q'.stage = (q.stage.receive now e).1)
    (hphase : q'.phase = Network.phaseAfter (q.stage.receive now e).2.2) :
    q'.Heeds (taken ++ [e]) where
  last earlier e' heq := by
    rwa [← (List.append_inj' heq rfl).1]
  done hdone := by
    rw [hphase] at hdone
    cases hprogress : (q.stage.receive now e).2.2 with
    | finished =>
      obtain ⟨port, message⟩ := e
      cases hport
      cases Stage.message_of_finished hprogress
      exact List.mem_append_right _ (List.mem_singleton_self _)
    | _ =>
      rw [hprogress] at hdone
      cases hdone
  counted := by
    rw [hstage, (Stage.heeds_receive now q.stage e).batchesIn, hport, hopen, if_pos rfl, h.counted,
      batchesAmong, batchesAmong, List.filterMap_append, List.length_append,
      List.filterMap_cons]
    cases e.message.batch? <;> rfl

end Process

/-! ## What the log tells -/

section Events

variable (k i : Nat) (log : List Event)

theorem takings_historyOf_fed (m : Message) :
    takings (historyOf k (log ++ [.fed i m])) = takings (historyOf k log) := by
  rw [historyOf_append, takings_append, Execution.historyOf_fed]
  split <;> exact List.append_nil _

theorem takings_historyOf_sent (outlet : Outlet) (m : Message) :
    takings (historyOf k (log ++ [.sent i outlet m])) = takings (historyOf k log) := by
  rw [historyOf_append, takings_append, Execution.historyOf_sent]
  split
  · exact List.append_nil _
  · split <;> exact List.append_nil _

theorem takings_historyOf_took (e : Envelope) (reaction : Reaction) :
    takings (historyOf k (log ++ [.took i e reaction])) =
      takings (historyOf k log) ++ if i = k then [e] else [] := by
  rw [historyOf_append, takings_append, Execution.historyOf_took]
  split <;> rfl

end Events

namespace Network

variable {now : Instant} {n n' : Network} {i : Nat} {p p' : Process}

/-- Every process has the stage that it had, and has not left without a failure since. -/
def Stands (n n' : Network) : Prop :=
  ∀ (k : Nat) (q' : Process), n'.processes[k]? = some q' →
    ∃ q, n.processes[k]? = some q ∧ q'.stage = q.stage ∧
      (q'.phase.isDone = true → q.phase.isDone = true)

theorem stands_of_eq (h : n'.processes = n.processes) : n.Stands n' :=
  fun _ q hq => ⟨q, h ▸ hq, rfl, id⟩

theorem stands_set (hp : n.processes[i]? = some p)
    (hprocesses : n'.processes = n.processes.set i p') (hstage : p'.stage = p.stage)
    (hdone : p'.phase.isDone = true → p.phase.isDone = true) : n.Stands n' := by
  intro k q' hq'
  rw [hprocesses] at hq'
  exact forall_set (P := fun k q' => ∃ q, n.processes[k]? = some q ∧ q'.stage = q.stage ∧
    (q'.phase.isDone = true → q.phase.isDone = true)) (fun _ q hq => ⟨q, hq, rfl, id⟩)
    ⟨p, hp, hstage, hdone⟩ k q' hq'

theorem Stands.trans {n'' : Network} (h : n.Stands n') (h' : n'.Stands n'') : n.Stands n'' := by
  intro k q'' hq''
  obtain ⟨q', hq', hstage', hdone'⟩ := h' k q'' hq''
  obtain ⟨q, hq, hstage, hdone⟩ := h k q' hq'
  exact ⟨q, hq, hstage'.trans hstage, hdone ∘ hdone'⟩

theorem stands_abortAt (n : Network) (i : Nat) : n.Stands (n.abortAt i) := by
  intro k q' hq'
  rw [getElem?_abortAt] at hq'
  obtain ⟨q, hq, rfl⟩ := Option.map_eq_some_iff.1 hq'
  refine ⟨q, hq, ?_⟩
  split
  · rw [Process.abort]
    split
    · exact ⟨rfl, id⟩
    · exact ⟨rfl, fun hdone => absurd hdone Bool.false_ne_true⟩
  · exact ⟨rfl, id⟩

end Network

/-! ## In traffic -/

namespace Traffic

/-- The envelopes that process number `k` has taken. -/
def takenBy (k : Nat) (x : Traffic) : List Envelope := takings (historyOf k x.log)

/-- Whatever process has number `k` stands so to what it has taken. -/
def Heeds (k : Nat) (x : Traffic) : Prop :=
  ∀ q, x.task.network.processes[k]? = some q → q.Heeds (x.takenBy k)

variable {p : Plan} {x x' : Traffic} {i k : Nat} {move : Move}

theorem heeds_start (clients : List Client) (clock : Clock) (p : Plan) (k : Nat) :
    (start clock p clients).Heeds k := by
  intro q hq
  change p.network.processes[k]? = some q at hq
  rw [Plan.getElem?_processes] at hq
  obtain ⟨s, -, rfl⟩ := Option.map_eq_some_iff.1 hq
  refine ⟨fun earlier e heq => ?_, nofun, rfl⟩
  exact absurd heq.symm (List.append_ne_nil_of_right_ne_nil _ (List.cons_ne_nil _ _))

/-- The process takes nothing. -/
theorem Heeds.of_stands (h : x.Heeds k) (hstands : x.task.network.Stands x'.task.network)
    (htaken : x'.takenBy k = x.takenBy k) : x'.Heeds k := by
  intro q' hq'
  obtain ⟨q, hq, hstage, hdone⟩ := hstands k q' hq'
  rw [htaken]
  exact (h q hq).of_eq hstage hdone

theorem Heeds.acts (h : x.Heeds k) {intent : Intent} (hacts : x.Acts i intent x') :
    x'.Heeds k := by
  cases hacts with
  | sends hoffer =>
    obtain ⟨q, hq, -, rfl⟩ := Network.exists_set_of_offer hoffer
    exact h.of_stands (Network.stands_set hq rfl rfl id) (takings_historyOf_fed ..)
  | misses => exact h.of_stands (Network.stands_of_eq rfl) (takings_historyOf_fed ..)
  | rejected => exact h.of_stands (Network.stands_of_eq rfl) (takings_historyOf_fed ..)
  | begins hbegin =>
    refine h.of_stands (Network.stands_of_eq ?_) rfl
    rw [(PipelineTask.of_begin?_eq_some hbegin).1.2.1]
  | refused => exact h.of_stands (Network.stands_of_eq rfl) rfl
  | turns => exact h.of_stands (Network.stands_of_eq rfl) rfl
  | records => exact h.of_stands (Network.stands_of_eq rfl) rfl
  | requests => exact h.of_stands (Network.stands_of_eq rfl) rfl

section Source

variable {s : PlannedStage} {n : SourceNode} (hgrows : x.Grows p.network)
  (hs : p.stages[k]? = some s) (hkind : s.kind = .source n) (hinputs : s.inputs = [])
include hgrows hs hinputs

/-- What arrives at a source was given to it. -/
theorem Grows.port_of_mem_inbox {q : Process} (hq : x.task.network.processes[k]? = some q)
    (hopen : q.phase.isOpen = true) {e : Envelope} (he : e ∈ q.inbox) : e.port = 0 := by
  obtain ⟨q', hq', hfollows⟩ := Execution.Reached.follows hgrows hs
  cases hq.symm.trans hq'
  have harrived : e ∈ arrivals (historyOf k x.log) :=
    hfollows.inbox hopen ▸ List.mem_append_right _ he
  rw [Execution.Reached.arrivals_eq_fedTo hgrows hs hinputs] at harrived
  obtain ⟨m, -, rfl⟩ := List.mem_map.1 harrived
  rfl

include hkind

theorem Heeds.steps (h : x.Heeds k) {network : Network}
    (hstep : x.task.network.step? x.clock.now i = some network) :
    ({ x with
      task := { x.task with network }
      log := x.log ++ x.eventsOf (.step i) } : Traffic).Heeds k := by
  have hsteps := Network.steps_of_step? hstep
  have hevents {q : Process} (hq : x.task.network.processes[i]? = some q) :
      x.eventsOf (.step i) = q.events x.clock.now i := by
    rw [eventsOf, hq, Option.toList_some, List.flatMap_singleton]
  cases hsteps with
  | @takes q e inbox hq hout hphase hin =>
    have htook : x.eventsOf (.step i) = [.took i e (q.stage.receive x.clock.now e).2.1] := by
      rw [hevents hq, Process.events, hout, hphase, hin]
    intro q' hq'
    rw [takenBy, htook, takings_historyOf_took]
    by_cases hk : i = k
    · subst hk
      have hlt := (List.getElem?_eq_some_iff.1 hq).1
      cases (List.getElem?_set_self hlt).symm.trans hq'
      obtain ⟨q', hq', hfollows⟩ := Execution.Reached.follows hgrows hs
      cases hq.symm.trans hq'
      obtain ⟨hclose, hopen⟩ := hfollows.of_running_source hkind hphase
      rw [if_pos rfl]
      refine (h q hq).takes hclose hopen ?_ rfl rfl
      exact hgrows.port_of_mem_inbox hs hinputs hq (by rw [hphase]; rfl)
        (hin ▸ List.mem_cons_self)
    · rw [if_neg hk, List.append_nil]
      exact h q' ((List.getElem?_set_ne hk).symm.trans hq')
  | @records q cause hq hout hphase =>
    refine h.of_stands (Network.stands_set hq rfl rfl fun hdone => ?_) ?_
    · cases hdone
    rw [takenBy, hevents hq, Process.events, hout, hphase]
    exact congrArg (takings <| historyOf k ·) (List.append_nil _)
  | @leaves q failure hq hout hphase =>
    refine h.of_stands (Network.stands_set hq rfl rfl (hphase ▸ id)) ?_
    rw [takenBy, hevents hq, Process.events, hout, hphase]
    exact congrArg (takings <| historyOf k ·) (List.append_nil _)
  | @sends q r outlet m outbox hq hout hr =>
    have hfirst : x.task.network.Stands { x.task.network with
        processes := x.task.network.processes.set i { q with outbox } } :=
      Network.stands_set hq rfl rfl id
    refine h.of_stands (hfirst.trans
      (Network.stands_set (i := i + 1 + outlet.between) (p := r) ?_ rfl rfl id)) ?_
    · rw [List.getElem?_set_ne (by omega), hr]
    · rw [takenBy, hevents hq, Process.events, hout]
      exact takings_historyOf_sent ..
  | @misses q outlet m outbox hq hout =>
    refine h.of_stands (Network.stands_set hq rfl rfl id) ?_
    rw [takenBy, hevents hq, Process.events, hout]
    exact takings_historyOf_sent ..

theorem Heeds.moves (h : x.Heeds k) (hmoves : x.Moves move x') : x'.Heeds k := by
  cases hmoves with
  | acts _ hacts => exact h.acts hacts
  | moves hmoves =>
    cases hmoves with
    | steps hstep => exact h.steps hgrows hs hkind hinputs hstep
    | aborts =>
      refine h.of_stands (x.task.network.stands_abortAt _) ?_
      exact congrArg (takings <| historyOf k ·) (List.append_nil _)
    | shuts =>
      exact h.of_stands (Network.stands_of_eq rfl)
        (congrArg (takings <| historyOf k ·) (List.append_nil _))
    | finishes =>
      exact h.of_stands (Network.stands_of_eq rfl)
        (congrArg (takings <| historyOf k ·) (List.append_nil _))
  | sets => exact h

end Source

end Traffic

end SeriesPipeline
