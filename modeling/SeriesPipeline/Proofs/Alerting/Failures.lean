import Mathlib.Data.List.TakeWhile
import SeriesPipeline.Proofs.Alerting.Notifications

/-!
# Failing batches of alertings

An alerting fails on a batch at the first row of which it cannot tell the level. The rows before it
have been read by then: their group has moved on, and the alerts that they called for are counted,
but the call gives out none of them.
-/

namespace SeriesPipeline.Alerting

/-- A batch that ends before the first row on which the predicate fails. -/
def readable (f : Formula) (b : Batch) : Batch :=
  { b with rows := b.rows.takeWhile fun row => (f.holdsIn b row).isOk }

/-- The fault of the first row on which the predicate fails. -/
def fault? (f : Formula) (b : Batch) (rows : List Row) : Option StageFault :=
  rows.findSome? fun row =>
    match f.holdsIn b row with
    | .ok _ => none
    | .error fault => some fault

/-- The answer for a batch, by the one for its readable rows. -/
def answerOf (f : Formula) (b : Batch) (answer : Except StageFault Emitted) :
    Except StageFault Emitted :=
  match fault? f b b.rows with
  | none => answer
  | some fault => .error fault

/-- The alerts that an answer gives out. -/
def alertsOf (answer : Except StageFault Emitted) : List Alert :=
  match answer with
  | .ok out => out.alerts
  | .error _ => []

/-- Of the alerts that the readable rows of a batch call for, those that a later row keeps back. -/
def lostOf (f : Formula) (b : Batch) (answer : Except StageFault Emitted) : List Alert :=
  match fault? f b b.rows with
  | none => []
  | some _ => alertsOf answer

/-- Calls with a batch each, as requests. -/
def asRequests (calls : List (Instant × Nat × Batch)) : List (Instant × Request) :=
  calls.map fun (now, port, b) => (now, .batch port b)

/-- Calls with the readable rows of their batches. -/
def readableCalls (f : Formula) (calls : List (Instant × Nat × Batch)) :
    List (Instant × Nat × Batch) :=
  calls.map fun (now, port, b) => (now, port, readable f b)

variable {op : Alerting} {f : Formula} {now : Instant} {b : Batch} {row : Row}
  {rows rest : List Row} {fault : StageFault}

/-! ## Rows -/

theorem fault?_cons_ok {holds : Bool} (h : f.holdsIn b row = .ok holds) :
    fault? f b (row :: rest) = fault? f b rest := by
  rw [fault?, List.findSome?_cons, h]
  rfl

theorem fault?_cons_error (h : f.holdsIn b row = .error fault) :
    fault? f b (row :: rest) = some fault := by
  rw [fault?, List.findSome?_cons, h]

/-- Without a failing row, all rows are readable. -/
theorem readable_eq_self (h : fault? f b b.rows = none) : readable f b = b := by
  have hok : ∀ row ∈ b.rows, (f.holdsIn b row).isOk := by
    intro row hrow
    have hnone := List.findSome?_eq_none_iff.1 h row hrow
    cases hholds : f.holdsIn b row with
    | ok holds => rfl
    | error fault =>
      rw [hholds] at hnone
      cases hnone
  rw [readable, List.takeWhile_eq_self_iff.2 hok]

theorem predicate_recordLevel (op : Alerting) (now : Instant) (b : Batch) (row : Row)
    (level : Level) : (op.recordLevel now b row level).1.predicate = op.predicate := by
  simp only [recordLevel]
  split
  · rfl
  · split <;> rfl

/-- Other rows of the batch do not matter. -/
theorem recordRows_of_rows (others : List Row) :
    recordRows now { b with rows := others } op rows = recordRows now b op rows := by
  induction rows generalizing op with
  | nil => rfl
  | cons row rest ih =>
    have hholds : op.predicate.holdsIn { b with rows := others } row = op.predicate.holdsIn b row :=
      rfl
    rw [recordRows, recordRows, hholds]
    cases op.predicate.holdsIn b row with
    | error fault => rfl
    | ok holds =>
      simp only [ih]
      rfl

/-- Rows are read up to the first that fails. -/
theorem recordRows_takeWhile (now : Instant) (b : Batch) (op : Alerting) (rows : List Row) :
    ∃ alerts, recordRows now b op
        (rows.takeWhile fun row => (op.predicate.holdsIn b row).isOk) =
          ((recordRows now b op rows).1, .ok alerts) ∧
      (recordRows now b op rows).2 =
        match fault? op.predicate b rows with
        | none => .ok alerts
        | some fault => .error fault := by
  induction rows generalizing op with
  | nil => exact ⟨[], rfl, rfl⟩
  | cons row rest ih =>
    cases hholds : op.predicate.holdsIn b row with
    | error fault =>
      refine ⟨[], ?_, ?_⟩
      · rw [List.takeWhile_cons_of_neg (by rw [hholds]; exact Bool.false_ne_true),
          recordRows_cons_error hholds]
        rfl
      · rw [recordRows_cons_error hholds, fault?_cons_error hholds]
    | ok holds =>
      set next := op.recordLevel now b row (levelIn op.predicate b row) with hnext
      obtain ⟨alerts, hread, hanswer⟩ := ih next.1
      rw [hnext, predicate_recordLevel, ← hnext] at hread hanswer
      refine ⟨next.2.toList ++ alerts, ?_, ?_⟩
      · rw [List.takeWhile_cons_of_pos (by rw [hholds]; rfl), recordRows_cons_ok hholds,
          recordRows_cons_ok hholds, ← hnext, hread]
        rfl
      · rw [recordRows_cons_ok hholds, ← hnext, hanswer, fault?_cons_ok hholds]
        cases fault? op.predicate b rest <;> rfl

theorem predicate_recordRows (now : Instant) (b : Batch) (op : Alerting) (rows : List Row) :
    (recordRows now b op rows).1.predicate = op.predicate := by
  induction rows generalizing op with
  | nil => rfl
  | cons row rest ih =>
    cases hholds : op.predicate.holdsIn b row with
    | error fault => rw [recordRows_cons_error hholds]
    | ok holds => rw [recordRows_cons_ok hholds, ih, predicate_recordLevel]

/-! ## Calls -/

/-- A call does what one with the readable rows does, and fails if there are more. -/
theorem answer_readable (op : Alerting) (now : Instant) (port : Nat) (b : Batch) :
    ∃ (next : Alerting) (answer : Except StageFault Emitted), next.predicate = op.predicate ∧
      answer.isOk ∧
      (Operator.alerting op).answer now (.batch port (readable op.predicate b)) =
        (.alerting next, answer) ∧
      (Operator.alerting op).answer now (.batch port b) =
        (.alerting next, answerOf op.predicate b answer) := by
  obtain ⟨alerts, hread, hanswer⟩ := recordRows_takeWhile now b op b.rows
  refine ⟨(recordRows now b op b.rows).1, .ok ⟨[readable op.predicate b], alerts, []⟩,
    predicate_recordRows now b op b.rows, rfl, ?_, ?_⟩
  · have hcall : op.onBatch now (readable op.predicate b) =
        ((recordRows now b op b.rows).1, .ok alerts) :=
      (recordRows_of_rows _).trans hread
    simp only [Operator.answer, Operator.onBatch, hcall]
    rfl
  · simp only [Operator.answer, Operator.onBatch, Alerting.onBatch, hanswer, answerOf]
    cases hfault : fault? op.predicate b b.rows with
    | none => rw [readable_eq_self hfault]; rfl
    | some fault => rfl

/-- Calls do what they would with the readable rows of their batches. -/
theorem serve_readable (op : Alerting) (calls : List (Instant × Nat × Batch)) :
    let before := Operator.serve (.alerting op) (asRequests (readableCalls op.predicate calls))
    before.2.all (·.isOk) ∧ before.2.length = calls.length ∧
      Operator.serve (.alerting op) (asRequests calls) =
        (before.1, List.zipWith (answerOf op.predicate) (calls.map (·.2.2)) before.2) := by
  induction calls generalizing op with
  | nil => exact ⟨rfl, rfl, rfl⟩
  | cons call rest ih =>
    obtain ⟨now, port, b⟩ := call
    obtain ⟨next, answer, hpredicate, hok, hread, hcall⟩ := answer_readable op now port b
    obtain ⟨hall, hlength, hrest⟩ := ih next
    rw [hpredicate] at hall hlength hrest
    have hbefore : Operator.serve (.alerting op)
        (asRequests (readableCalls op.predicate ((now, port, b) :: rest))) =
        ((Operator.serve (.alerting next) (asRequests (readableCalls op.predicate rest))).1,
          answer :: (Operator.serve (.alerting next)
            (asRequests (readableCalls op.predicate rest))).2) := by
      rw [readableCalls, asRequests, List.map_cons, List.map_cons, Operator.serve, hread]
      rfl
    have hcalls : Operator.serve (.alerting op) (asRequests ((now, port, b) :: rest)) =
        ((Operator.serve (.alerting next) (asRequests rest)).1,
          answerOf op.predicate b answer ::
            (Operator.serve (.alerting next) (asRequests rest)).2) := by
      rw [asRequests, List.map_cons, Operator.serve, hcall]
      rfl
    rw [hbefore, hcalls, hrest]
    refine ⟨?_, congrArg (· + 1) hlength, rfl⟩
    rw [List.all_cons, hok, hall]
    rfl

/-- An alert of the readable rows is given out, or lost when its batch fails. -/
theorem length_alertsOf (f : Formula) (b : Batch) (answer : Except StageFault Emitted) :
    (alertsOf answer).length =
      (alertsOf (answerOf f b answer)).length + (lostOf f b answer).length := by
  rw [answerOf, lostOf]
  cases fault? f b b.rows with
  | none => rfl
  | some fault => exact (Nat.zero_add _).symm

theorem length_flatMap_alertsOf (f : Formula) {batches : List Batch}
    {answers : List (Except StageFault Emitted)} (h : answers.length = batches.length) :
    (answers.flatMap alertsOf).length =
      ((List.zipWith (answerOf f) batches answers).flatMap alertsOf).length +
        (List.zipWith (lostOf f) batches answers).flatten.length := by
  induction batches generalizing answers with
  | nil =>
    rw [List.length_eq_zero_iff.1 h]
    rfl
  | cons b rest ih =>
    obtain ⟨answer, later, rfl⟩ := List.exists_cons_of_length_eq_add_one h
    rw [List.zipWith_cons_cons, List.zipWith_cons_cons, List.flatMap_cons, List.flatMap_cons,
      List.flatten_cons, List.length_append, List.length_append, List.length_append,
      ih (Nat.succ.inj h), length_alertsOf f b answer]
    omega

/-- Whatever batches fail, a new alerting ends as if each had ended before the first row on which
the predicate fails. All rows up to there are in the levels and the detectors of their groups, and
their alerts are counted: those given out, and those lost since their batch failed later on. A batch
that fails on its first row leaves everything as it was. -/
theorem serve_counts_lost_alerts (task node : String) (n : AlertNode) (history : Nat)
    (calls : List (Instant × Nat × Batch)) :
    let start := new task node n history
    let batches := calls.map (·.2.2)
    let before := Operator.serve (.alerting start) (asRequests (readableCalls n.predicate calls))
    let after := Operator.serve (.alerting start) (asRequests calls)
    let rs := readings n.predicate (readableCalls n.predicate calls)
    before.2.all (·.isOk) ∧
    after = (before.1, List.zipWith (answerOf n.predicate) batches before.2) ∧
    (∀ key, (before.2.flatMap alertsOf).filter (·.key = key) =
      start.alertsFor (readingsOf key rs)) ∧
    ∃ final, after.1 = .alerting final ∧
      final.sent = (after.2.flatMap alertsOf).length +
        (List.zipWith (lostOf n.predicate) batches before.2).flatten.length ∧
      (∀ key, final.groups.get? key = (levels (readingsOf key rs)).getLast?.map
        (⟨·, start.detectorAfter (readingsOf key rs)⟩)) ∧
      ∀ now b, (readable n.predicate b).rows = [] → (final.onBatch now b).1 = final := by
  intro start batches before after rs
  obtain ⟨hall, hlength, hafter⟩ : before.2.all (·.isOk) ∧ before.2.length = calls.length ∧
      after = (before.1, List.zipWith (answerOf n.predicate) batches before.2) :=
    serve_readable start calls
  obtain ⟨outs, houts⟩ := exists_eq_map_ok hall
  have halerts : before.2.flatMap alertsOf = outs.flatMap (·.alerts) := by
    rw [houts, List.flatMap_map]
    rfl
  obtain ⟨final, hfinal, htracks, -⟩ := (tracks_new start rfl rfl rfl).serve houts
  rw [List.nil_append, List.nil_append, ← halerts] at htracks
  refine ⟨hall, hafter, htracks.notified, final, ?_, ?_, htracks.groups, fun now b hb => ?_⟩
  · exact (congrArg Prod.fst hafter).trans hfinal
  · rw [htracks.sent, congrArg Prod.snd hafter]
    exact length_flatMap_alertsOf _ (hlength.trans (List.length_map _).symm)
  · have hpredicate : final.predicate = n.predicate := by rw [htracks.config]; rfl
    obtain ⟨alerts, hread, -⟩ := recordRows_takeWhile now b final b.rows
    rw [hpredicate, show b.rows.takeWhile _ = [] from hb] at hread
    exact (congrArg Prod.fst hread).symm

/-- Of two batches that fail, one has a row before that changes nothing, and loses no alert. -/
theorem serve_counts_lost_alerts_of_two :
    let n : AlertNode := ⟨⟨"v", .ident "v"⟩, none, none, none⟩
    let batch (values : List Value) : Batch := ⟨"m", ∅, ["v"], values.map fun v => ⟨⟨1⟩, [v]⟩, none⟩
    let calls : List (Instant × Nat × Batch) :=
      [(⟨7⟩, 0, batch [.bool true]), (⟨8⟩, 0, batch [.bool true, .null]),
        (⟨9⟩, 0, batch [.null])]
    let after := Operator.serve (.alerting (new "t" "n" n 21)) (asRequests calls)
    ∃ final, after.1 = .alerting final ∧ final.sent = (after.2.flatMap alertsOf).length ∧
      (final.onBatch ⟨10⟩ (batch [.null, .bool false])).1 = final := by
  intro n batch calls after
  obtain ⟨-, -, -, final, hfinal, hsent, -, hunchanged⟩ :=
    serve_counts_lost_alerts "t" "n" n 21 calls
  exact ⟨final, hfinal, hsent.trans (by decide +kernel), hunchanged _ _ (by decide +kernel)⟩

/-- The first row raises an alert, and the second one is no truth value. The call fails and gives
out nothing, though the alert is counted and the group has moved on. -/
theorem onBatch_loses_alert :
    let start := new "t" "n" ⟨⟨"v", .ident "v"⟩, none, none, none⟩ 21
    let b : Batch := ⟨"m", ∅, ["v"], [⟨⟨1⟩, [.bool true]⟩, ⟨⟨2⟩, [.null]⟩], none⟩
    let result := start.onBatch ⟨9⟩ b
    result.2.isOk = false ∧ start.sent = 0 ∧ result.1.sent = 1 ∧
      start.levelOf b.key = none ∧ result.1.levelOf b.key = some .alerting := by
  decide +kernel

end SeriesPipeline.Alerting
