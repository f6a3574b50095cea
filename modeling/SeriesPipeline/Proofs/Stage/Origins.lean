import Mathlib.Data.List.Induction
import SeriesPipeline.Proofs.Stage.Clock

/-!
# Where results come from

A stage publishes under one name only, and all its alerts are of one node.
-/

namespace SeriesPipeline

/-- The name under which an operator publishes, and the node of its alerts. -/
def Operator.labels : Operator → Option String × Option String
  | .publishing output => (some output, none)
  | .alerting a => (none, some a.node)
  | _ => (none, none)

/-- All that was published and every alert have the labels. -/
structure Reaction.Labelled (labels : Option String × Option String) (r : Reaction) : Prop where
  published : ∀ e ∈ r.published, labels.1 = some e.1
  alerts : ∀ a ∈ r.alerts, labels.2 = some a.node

namespace Reaction

variable {labels : Option String × Option String} {r s : Reaction}

theorem labelled_none : none.Labelled labels := ⟨nofun, nofun⟩

theorem labelled_of_sent (h : r = ⟨r.sent, [], []⟩) : r.Labelled labels := by
  rw [h]
  exact ⟨nofun, nofun⟩

theorem Labelled.append (hr : r.Labelled labels) (hs : s.Labelled labels) :
    (r ++ s).Labelled labels :=
  ⟨List.forall_mem_append.2 ⟨hr.published, hs.published⟩,
    List.forall_mem_append.2 ⟨hr.alerts, hs.alerts⟩⟩

end Reaction

variable (now : Instant)

/-- The task and the node of an alert. -/
def Alert.origin (a : Alert) : String × String := (a.task, a.node)

namespace Alerting

/-- The task and the node of the alerts. -/
def origin (op : Alerting) : String × String := (op.task, op.node)

theorem recordLevel_origin (op : Alerting) (b : Batch) (row : Row) (level : Level) :
    (op.recordLevel now b row level).1.origin = op.origin ∧
      ∀ a ∈ (op.recordLevel now b row level).2, a.origin = op.origin := by
  simp only [recordLevel]
  split
  · exact ⟨rfl, fun _ ha => absurd ha (Option.not_mem_none _)⟩
  · split
    · exact ⟨rfl, fun _ ha => absurd ha (Option.not_mem_none _)⟩
    · refine ⟨rfl, ?_⟩
      rintro a ⟨⟩
      rfl

theorem recordRows_origin (op : Alerting) (b : Batch) (rows : List Row) :
    (recordRows now b op rows).1.origin = op.origin ∧
      ∀ alerts, (recordRows now b op rows).2 = .ok alerts →
        ∀ a ∈ alerts, a.origin = op.origin := by
  induction rows generalizing op with
  | nil =>
    refine ⟨rfl, ?_⟩
    rintro alerts ⟨⟩
    exact fun _ ha => absurd ha List.not_mem_nil
  | cons row rest ih =>
    rw [recordRows]
    cases op.predicate.holdsIn b row with
    | error fault =>
      refine ⟨rfl, ?_⟩
      rintro alerts ⟨⟩
    | ok holds =>
      obtain ⟨horigin, halert⟩ :=
        op.recordLevel_origin now b row (if holds then .alerting else .ok)
      obtain ⟨hrest, halerts⟩ := ih (op.recordLevel now b row (if holds then .alerting else .ok)).1
      refine ⟨hrest.trans horigin, fun alerts heq a ha => ?_⟩
      obtain ⟨later, hlater, rfl⟩ := map_eq_ok.1 heq
      rcases List.mem_append.1 ha with ha | ha
      · exact halert a (Option.mem_toList.1 ha)
      · exact (halerts later hlater a ha).trans horigin

end Alerting

namespace Operator

theorem onBatch_labels (op : Operator) (port : Nat) (b : Batch) :
    (op.onBatch now port b).1.labels = op.labels ∧
      ∀ out, (op.onBatch now port b).2 = .ok out →
        (Reaction.mk [] out.alerts out.published).Labelled op.labels := by
  cases op with
  | intake i =>
    refine ⟨rfl, fun out hout => ?_⟩
    obtain ⟨result, -, rfl⟩ := map_eq_ok.1 hout
    exact ⟨nofun, nofun⟩
  | reducing r =>
    refine ⟨rfl, fun out hout => ?_⟩
    obtain ⟨result, -, rfl⟩ := map_eq_ok.1 hout
    exact ⟨nofun, nofun⟩
  | alerting a =>
    obtain ⟨horigin, halerts⟩ := a.recordRows_origin now b b.rows
    refine ⟨congrArg (fun origin => (none, some origin.2)) horigin, fun out hout => ?_⟩
    obtain ⟨alerts, heq, rfl⟩ := map_eq_ok.1 hout
    exact ⟨nofun, fun alert halert =>
      congrArg (fun origin : String × String => some origin.2)
        (halerts alerts heq alert halert).symm⟩
  | publishing output =>
    refine ⟨rfl, ?_⟩
    rintro out ⟨⟩
    exact ⟨fun e he => by rw [List.mem_singleton.1 he]; rfl, nofun⟩
  | windowing w =>
    refine ⟨rfl, ?_⟩
    rintro out ⟨⟩
    exact ⟨nofun, nofun⟩
  | joining j =>
    refine ⟨rfl, ?_⟩
    rintro out ⟨⟩
    exact ⟨nofun, nofun⟩
  | merging m =>
    refine ⟨rfl, ?_⟩
    rintro out ⟨⟩
    exact ⟨nofun, nofun⟩

theorem onWatermark_labels (op : Operator) (t : Instant) :
    (op.onWatermark t).1.labels = op.labels := by
  cases op <;> rfl

theorem onClose_labels (op : Operator) : op.onClose.1.labels = op.labels := by
  cases op <;> rfl

end Operator

namespace Stage

theorem advance_labels (s : Stage) (mark : Option Instant) :
    (s.advance mark).1.operator.labels = s.operator.labels := by
  cases mark with
  | none => rfl
  | some t => exact s.operator.onWatermark_labels t

theorem receive_labels (s : Stage) (e : Envelope) :
    (s.receive now e).1.operator.labels = s.operator.labels ∧
      (s.receive now e).2.1.Labelled s.operator.labels := by
  rw [receive]
  cases s.marks.ports[e.port]? with
  | none => exact ⟨rfl, Reaction.labelled_none⟩
  | some port =>
    dsimp only
    cases port.isOpen with
    | false => exact ⟨rfl, Reaction.labelled_none⟩
    | true =>
      rw [if_pos rfl]
      cases e.message with
      | batch b =>
        have hanswer := s.operator.onBatch_labels now e.port b
        simp only [takeBatch]
        rcases hresult : s.operator.onBatch now e.port b with ⟨op, fault | out⟩ <;>
          rw [hresult] at hanswer <;> obtain ⟨hlabels, hout⟩ := hanswer
        · exact ⟨hlabels, Reaction.labelled_none⟩
        · exact ⟨hlabels, (hout out rfl).published, (hout out rfl).alerts⟩
      | barrier t =>
        exact ⟨advance_labels _ _, Reaction.labelled_of_sent (s.takeBarrier_eq_of_sent e.port t)⟩
      | close =>
        refine ⟨?_, Reaction.labelled_of_sent (s.takeClose_eq_of_sent e.port)⟩
        have hadvance := advance_labels { s with marks := (s.marks.close e.port).1 }
          (s.marks.close e.port).2
        simp only [takeClose]
        split
        · exact (Operator.onClose_labels _).trans hadvance
        · exact hadvance

/-- A stage publishes under one name and alerts for one node on all of its way. -/
theorem course_labels (s : Stage) (taken : List Envelope) :
    (s.course now taken).stage.operator.labels = s.operator.labels ∧
      (s.course now taken).reaction.Labelled s.operator.labels := by
  induction taken using List.reverseRecOn with
  | nil => exact ⟨rfl, Reaction.labelled_none⟩
  | append_singleton taken e ih =>
    obtain ⟨hlabels, hreaction⟩ := ih
    rw [course_concat]
    by_cases hrunning : (s.course now taken).progress = .running
    · obtain ⟨hnext, hreceived⟩ := (s.course now taken).stage.receive_labels now e
      rw [Course.take_of_running hrunning]
      exact ⟨hnext.trans hlabels, hreaction.append (hlabels ▸ hreceived)⟩
    · rw [Course.take_of_ended hrunning]
      exact ⟨hlabels, hreaction⟩

end Stage

/-! ## The task of alerts -/

/-- The alerts of an operator, if it has any, are of the task. -/
def Operator.AlertsOf (task : String) : Operator → Prop
  | .alerting a => a.task = task
  | _ => True

variable {task : String}

theorem Operator.alertsOf_ofNode (task node : String) (settings : Settings) (kind : NodeKind) :
    (ofNode task node settings kind).AlertsOf task := by
  cases kind <;> first | rfl | trivial

theorem Operator.alertsOf_of_labels {op : Operator} (h : op.labels.2 = none) :
    op.AlertsOf task := by
  cases op with
  | alerting a => cases h
  | _ => trivial

namespace Stage

theorem advance_alerting {s : Stage} {a : Alerting} (h : s.operator = .alerting a)
    (mark : Option Instant) : (s.advance mark).1.operator = .alerting a := by
  cases mark with
  | none => exact h
  | some t =>
    show (s.operator.onWatermark t).1 = _
    rw [h]
    rfl

theorem takeBarrier_alerting {s : Stage} {a : Alerting} (h : s.operator = .alerting a) (port : Nat)
    (t : Instant) : (s.takeBarrier port t).1.operator = .alerting a :=
  advance_alerting (s := { s with marks := (s.marks.observe port t).1 }) h _

theorem takeClose_alerting {s : Stage} {a : Alerting} (h : s.operator = .alerting a) (port : Nat) :
    (s.takeClose port).1.operator = .alerting a := by
  have hadvance := advance_alerting (s := { s with marks := (s.marks.close port).1 }) h
    (s.marks.close port).2
  simp only [takeClose]
  split
  · show (Stage.operator _).onClose.1 = _
    rw [hadvance]
    rfl
  · exact hadvance

theorem receive_alerting {s : Stage} {a : Alerting} (h : s.operator = .alerting a) (e : Envelope) :
    (s.receive now e).1.operator.AlertsOf a.task ∧
      ∀ alert ∈ (s.receive now e).2.1.alerts, alert.task = a.task := by
  have hstays : s.operator.AlertsOf a.task := by
    rw [h]
    rfl
  have hnone : ∀ alert ∈ ([] : List Alert), alert.task = a.task :=
    fun _ halert => absurd halert List.not_mem_nil
  rw [receive]
  cases s.marks.ports[e.port]? with
  | none => exact ⟨hstays, hnone⟩
  | some port =>
    dsimp only
    cases port.isOpen with
    | false => exact ⟨hstays, hnone⟩
    | true =>
      rw [if_pos rfl]
      cases e.message with
      | batch b =>
        obtain ⟨horigin, halerts⟩ := a.recordRows_origin now b b.rows
        simp only [takeBatch, h, Operator.onBatch, Alerting.onBatch]
        rcases hresult : Alerting.recordRows now b a b.rows with ⟨a', fault | alerts⟩ <;>
          rw [hresult] at horigin halerts
        · exact ⟨congrArg Prod.fst horigin, hnone⟩
        · exact ⟨congrArg Prod.fst horigin, fun alert halert =>
            congrArg Prod.fst (halerts alerts rfl alert halert)⟩
      | barrier t =>
        refine ⟨?_, ?_⟩
        · show (s.takeBarrier e.port t).1.operator.AlertsOf a.task
          rw [takeBarrier_alerting h]
          rfl
        · dsimp only
          rw [s.takeBarrier_eq_of_sent e.port t]
          exact hnone
      | close =>
        refine ⟨?_, ?_⟩
        · show (s.takeClose e.port).1.operator.AlertsOf a.task
          rw [takeClose_alerting h]
          rfl
        · dsimp only
          rw [s.takeClose_eq_of_sent e.port]
          exact hnone

theorem receive_task {s : Stage} (h : s.operator.AlertsOf task) (e : Envelope) :
    (s.receive now e).1.operator.AlertsOf task ∧
      ∀ a ∈ (s.receive now e).2.1.alerts, a.task = task := by
  by_cases halerting : ∃ a, s.operator = .alerting a
  · obtain ⟨a, ha⟩ := halerting
    rw [ha] at h
    obtain rfl : a.task = task := h
    exact receive_alerting now ha e
  · have hnone : s.operator.labels.2 = none := by
      cases hop : s.operator with
      | alerting a => exact absurd ⟨a, hop⟩ halerting
      | _ => rfl
    obtain ⟨hlabels, hreaction⟩ := s.receive_labels now e
    refine ⟨Operator.alertsOf_of_labels (hlabels ▸ hnone), fun a ha => ?_⟩
    have hsome := hreaction.alerts a ha
    rw [hnone] at hsome
    cases hsome

end Stage

end SeriesPipeline
