import SeriesPipeline.Proofs.Time.Order
import SeriesPipeline.Data.Batch

/-!
# Consistent batches

The check of a batch passes exactly when its columns are distinct, its rows are as wide as the
columns, and the times of the rows never go back.
-/

namespace SeriesPipeline.Batch

structure Consistent (b : Batch) : Prop where
  columns : b.columns.Nodup
  width : ∀ r ∈ b.rows, r.values.length = b.columns.length
  ordered : b.rows.Pairwise fun r s => r.time ≤ s.time

theorem repeatedColumn?_eq_none_iff (seen columns : List String) :
    repeatedColumn? seen columns = none ↔ columns.Nodup ∧ ∀ c ∈ columns, c ∉ seen := by
  induction columns generalizing seen with
  | nil => simp [repeatedColumn?]
  | cons c rest ih =>
    rw [repeatedColumn?]
    by_cases hc : c ∈ seen
    · simp [hc]
    · rw [if_neg (by simpa using hc), ih, List.nodup_cons]
      constructor
      · rintro ⟨hrest, hseen⟩
        refine ⟨⟨fun h => hseen c h List.mem_cons_self, hrest⟩, fun d hd => ?_⟩
        rcases List.mem_cons.1 hd with rfl | hd
        · exact hc
        · exact fun h => hseen d hd (List.mem_cons_of_mem _ h)
      · rintro ⟨⟨hnot, hrest⟩, hseen⟩
        refine ⟨hrest, fun d hd h => ?_⟩
        rcases List.mem_cons.1 h with rfl | h
        · exact hnot hd
        · exact hseen d (List.mem_cons_of_mem _ hd) h

theorem checkRows_eq_ok_iff (name : String) (width i : Nat) (previous : Option Instant)
    (rows : List Row) :
    checkRows name width i previous rows = .ok () ↔
      (∀ r ∈ rows, r.values.length = width) ∧ (∀ p ∈ previous, ∀ r ∈ rows, p ≤ r.time) ∧
        rows.Pairwise fun r s => r.time ≤ s.time := by
  induction rows generalizing i previous with
  | nil => simp [checkRows]
  | cons row rest ih =>
    -- a row that follows no other, or follows it in time, leaves the check of the rest
    have hstep : ((∀ p ∈ previous, p ≤ row.time) ∧ row.values.length = width ∧
        checkRows name width (i + 1) (some row.time) rest = .ok ()) ↔
        (∀ r ∈ row :: rest, r.values.length = width) ∧
          (∀ p ∈ previous, ∀ r ∈ row :: rest, p ≤ r.time) ∧
          (row :: rest).Pairwise fun r s => r.time ≤ s.time := by
      rw [ih, List.pairwise_cons]
      simp only [List.mem_cons, forall_eq_or_imp, Option.mem_some_iff, forall_eq']
      constructor
      · rintro ⟨hprev, hw, hws, hrow, hrest⟩
        exact ⟨⟨hw, hws⟩, fun p hp => ⟨hprev p hp, fun r hr => le_trans (hprev p hp) (hrow r hr)⟩,
          hrow, hrest⟩
      · rintro ⟨⟨hw, hws⟩, hprev, hrow, hrest⟩
        exact ⟨fun p hp => (hprev p hp).1, hw, hws, hrow, hrest⟩
    rw [← hstep]
    by_cases hw : row.values.length = width
    · cases previous with
      | none => simp [checkRows, hw]
      | some p =>
        by_cases hp : row.time < p
        · simp [checkRows, hw, hp, not_le.2 hp]
        · simp [checkRows, hw, hp, not_lt.1 hp]
    · simp [checkRows, hw]

theorem checkConsistency_eq_ok_iff {b : Batch} : b.checkConsistency = .ok () ↔ b.Consistent := by
  rw [checkConsistency]
  cases hc : repeatedColumn? [] b.columns with
  | some c =>
    have hnot : ¬ b.columns.Nodup := by
      intro h
      rw [(repeatedColumn?_eq_none_iff [] b.columns).2 ⟨h, by simp⟩] at hc
      cases hc
    simp only [reduceCtorEq, false_iff]
    exact fun h => hnot h.columns
  | none =>
    have hcols := ((repeatedColumn?_eq_none_iff [] b.columns).1 hc).1
    show checkRows b.name b.columns.length 0 none b.rows = .ok () ↔ _
    rw [checkRows_eq_ok_iff]
    constructor
    · rintro ⟨hwidth, -, hordered⟩
      exact ⟨hcols, hwidth, hordered⟩
    · rintro ⟨-, hwidth, hordered⟩
      exact ⟨hwidth, by simp, hordered⟩

end SeriesPipeline.Batch
