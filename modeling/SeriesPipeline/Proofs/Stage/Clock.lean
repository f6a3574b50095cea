import SeriesPipeline.Proofs.Stage.Course

/-!
# The clock

The clock shows in nothing that a stage gives out but the time at which its alerts were observed.
-/

namespace SeriesPipeline

/-- An alert without the time of the clock. -/
def Alert.unobserved (a : Alert) : Alert := { a with observedAt := .epoch }

def Emitted.unobserved (out : Emitted) : Emitted :=
  { out with alerts := out.alerts.map Alert.unobserved }

def Reaction.unobserved (r : Reaction) : Reaction :=
  { r with alerts := r.alerts.map Alert.unobserved }

theorem Reaction.unobserved_eq_self {r : Reaction} (h : r = ⟨r.sent, [], []⟩) :
    r.unobserved = r := by
  rw [h]
  rfl

variable (now : Instant)

namespace Alerting

theorem recordLevel_unobserved (op : Alerting) (b : Batch) (row : Row) (level : Level) :
    op.recordLevel .epoch b row level =
      (op.recordLevel now b row level).map id (Option.map Alert.unobserved) := by
  simp only [recordLevel]
  split
  · rfl
  · split <;> rfl

theorem recordRows_unobserved (op : Alerting) (b : Batch) (rows : List Row) :
    recordRows .epoch b op rows =
      (recordRows now b op rows).map id (Except.map (List.map Alert.unobserved)) := by
  induction rows generalizing op with
  | nil => rfl
  | cons row rest ih =>
    rw [recordRows, recordRows]
    cases op.predicate.holdsIn b row with
    | error fault => rfl
    | ok holds =>
      dsimp only
      rw [recordLevel_unobserved now]
      rcases op.recordLevel now b row (if holds then .alerting else .ok) with ⟨op', alert⟩
      simp only [Prod.map, id, ih op']
      rcases recordRows now b op' rest with ⟨op'', fault | alerts⟩
      · rfl
      · cases alert <;> rfl

end Alerting

theorem Operator.onBatch_unobserved (op : Operator) (port : Nat) (b : Batch) :
    op.onBatch .epoch port b = (op.onBatch now port b).map id (Except.map Emitted.unobserved) := by
  cases op with
  | alerting a =>
    simp only [onBatch, Alerting.onBatch, a.recordRows_unobserved now b b.rows]
    rcases Alerting.recordRows now b a b.rows with ⟨a', fault | alerts⟩ <;> rfl
  | intake i => cases h : i.onBatch b <;> simp only [onBatch, h] <;> rfl
  | reducing r => cases h : r.onBatch b <;> simp only [onBatch, h] <;> rfl
  | _ => rfl

/-! ## Stages -/

/-- Watermarks and the end of the input bring out nothing but batches. -/
theorem Operator.exists_onWatermark_eq (op : Operator) (t : Instant) :
    ∃ op' batches, op.onWatermark t = (op', .ofBatches batches) := by
  cases op <;> exact ⟨_, _, rfl⟩

theorem Operator.exists_onClose_eq (op : Operator) :
    ∃ op' batches, op.onClose = (op', .ofBatches batches) := by
  cases op <;> exact ⟨_, _, rfl⟩

namespace Stage

theorem advance_eq_of_sent (s : Stage) (mark : Option Instant) :
    (s.advance mark).2 = ⟨(s.advance mark).2.sent, [], []⟩ := by
  cases mark with
  | none => rfl
  | some t =>
    obtain ⟨op', batches, heq⟩ := s.operator.exists_onWatermark_eq t
    rw [advance, heq]
    rfl

theorem finish_eq_of_sent (s : Stage) : s.finish.2 = ⟨s.finish.2.sent, [], []⟩ := by
  obtain ⟨op', batches, heq⟩ := s.operator.exists_onClose_eq
  rw [finish, heq]
  rfl

/-- Barriers and closes bring out nothing but messages. -/
theorem takeBarrier_eq_of_sent (s : Stage) (port : Nat) (t : Instant) :
    (s.takeBarrier port t).2.1 = ⟨(s.takeBarrier port t).2.1.sent, [], []⟩ :=
  advance_eq_of_sent _ _

theorem takeClose_eq_of_sent (s : Stage) (port : Nat) :
    (s.takeClose port).2.1 = ⟨(s.takeClose port).2.1.sent, [], []⟩ := by
  have hadvance := advance_eq_of_sent { s with marks := (s.marks.close port).1 }
    (s.marks.close port).2
  simp only [takeClose]
  split
  · rw [hadvance, finish_eq_of_sent]
    rfl
  · exact hadvance

/-- The time at which an envelope is taken shows in alerts only. -/
theorem receive_unobserved (s : Stage) (e : Envelope) :
    s.receive .epoch e = ((s.receive now e).1, (s.receive now e).2.1.unobserved,
      (s.receive now e).2.2) := by
  rw [receive, receive]
  cases s.marks.ports[e.port]? with
  | none => rfl
  | some port =>
    dsimp only
    cases port.isOpen with
    | false => rfl
    | true =>
      cases e.message with
      | batch b =>
        simp only [if_true, takeBatch, s.operator.onBatch_unobserved now e.port b]
        rcases s.operator.onBatch now e.port b with ⟨op, fault | out⟩ <;> rfl
      | barrier t =>
        simp only [if_true]
        rw [Reaction.unobserved_eq_self (s.takeBarrier_eq_of_sent e.port t)]
      | close =>
        simp only [if_true]
        rw [Reaction.unobserved_eq_self (s.takeClose_eq_of_sent e.port)]

end Stage

end SeriesPipeline
