import SeriesPipeline.Operator.Basic
import SeriesPipeline.Proofs.Data.Shape
import SeriesPipeline.Proofs.Operator.Requests

/-!
# Answers of operators

An operator answers every request with what it gives out, or with the fault that it fails by. What
operators without buffers give out for a batch is a batch of the same window, with rows at times of
its rows.
-/

namespace SeriesPipeline

theorem bind_eq_ok {ε α β : Type} {x : Except ε α} {f : α → Except ε β} {b : β} :
    (x >>= f) = .ok b ↔ ∃ a, x = .ok a ∧ f a = .ok b := by
  cases x with
  | error fault => exact iff_of_false nofun nofun
  | ok a => exact ⟨fun h => ⟨a, rfl, h⟩, fun ⟨_, ha, h⟩ => Except.ok.inj ha ▸ h⟩

theorem map_eq_ok {ε α β : Type} {x : Except ε α} {f : α → β} {b : β} :
    x.map f = .ok b ↔ ∃ a, x = .ok a ∧ f a = b := by
  cases x with
  | error fault => exact iff_of_false nofun nofun
  | ok a =>
    refine ⟨fun h => ⟨a, rfl, Except.ok.inj h⟩, ?_⟩
    rintro ⟨_, ha, rfl⟩
    cases ha
    rfl

theorem exists_eq_map_ok {ε α : Type} {l : List (Except ε α)} (h : l.all (·.isOk)) :
    ∃ as : List α, l = as.map .ok := by
  refine ⟨l.filterMap (·.toOption), ?_⟩
  induction l with
  | nil => rfl
  | cons x rest ih =>
    rw [List.all_cons, Bool.and_eq_true] at h
    cases x with
    | error fault => cases h.1
    | ok a => exact congrArg (.ok a :: ·) (ih h.2)

namespace Intake

variable {op : Intake} {f : Formula} {b b' : Batch}

theorem keepRows_sublist {rows kept : List Row} (h : keepRows f b rows = .ok kept) :
    kept.Sublist rows := by
  induction rows generalizing kept with
  | nil =>
    cases h
    exact .refl _
  | cons row rest ih =>
    obtain ⟨keep, -, h⟩ := bind_eq_ok.1 h
    obtain ⟨rows, hrows, h⟩ := bind_eq_ok.1 h
    cases h
    cases keep with
    | true => exact (ih hrows).cons_cons row
    | false => exact (ih hrows).cons row

/-- What passes is consistent, and loses nothing but rows. -/
theorem of_onBatch_eq_some (h : op.onBatch b = .ok (some b')) :
    b.Consistent ∧ ∃ rows, rows.Sublist b.rows ∧ rows ≠ [] ∧ b' = { b with rows } := by
  rw [onBatch] at h
  split at h
  · cases h
  · rename_i hcheck
    have hrows : ∃ rows, rows.Sublist b.rows ∧
        (if rows.isEmpty then none else some { b with rows }) = some b' := by
      cases hf : op.filter with
      | none =>
        rw [hf] at h
        exact ⟨b.rows, .refl _, Except.ok.inj h⟩
      | some f =>
        rw [hf] at h
        obtain ⟨rows, hrows, h⟩ := bind_eq_ok.1 h
        exact ⟨rows, keepRows_sublist hrows, Except.ok.inj h⟩
    obtain ⟨rows, hsub, hsome⟩ := hrows
    split at hsome
    · cases hsome
    · rename_i hne
      cases hsome
      exact ⟨Batch.checkConsistency_eq_ok_iff.1 hcheck, rows, hsub,
        fun hnil => hne (List.isEmpty_iff.2 hnil), rfl⟩

theorem thins_onBatch (h : op.onBatch b = .ok (some b')) : b.Thins b' := by
  obtain ⟨-, rows, hrows, -, rfl⟩ := of_onBatch_eq_some h
  exact ⟨rfl, hrows.map _⟩

end Intake

namespace Reducing

variable {op : Reducing} {b b' : Batch} {index : Option Nat}

theorem time_of_mapRow {row : Row} {c : Option Contribution} (h : op.mapRow b index row = .ok c) :
    ∀ x ∈ c, x.1 = row.time := by
  unfold mapRow at h
  cases hmap : op.map with
  | count =>
    rw [hmap] at h
    intro x hx
    rw [← Except.ok.inj h, Option.mem_ite_none_right] at hx
    rw [← Option.some.inj hx.2]
  | identity =>
    rw [hmap] at h
    cases index with
    | none => cases h
    | some i =>
      intro x hx
      rw [← Except.ok.inj h, Option.mem_ite_none_left] at hx
      rw [← Option.some.inj hx.2]
  | formula f =>
    rw [hmap] at h
    obtain ⟨v, -, h⟩ := bind_eq_ok.1 h
    cases h
    intro x hx
    cases hx
    rfl

theorem times_mapRows {rows : List Row} {mapped : List Contribution}
    (h : op.mapRows b index rows = .ok mapped) :
    (mapped.map (·.1)).Sublist (rows.map (·.time)) := by
  induction rows generalizing mapped with
  | nil =>
    cases h
    exact .refl _
  | cons row rest ih =>
    obtain ⟨c, hc, h⟩ := bind_eq_ok.1 h
    obtain ⟨cs, hcs, h⟩ := bind_eq_ok.1 h
    cases h
    cases c with
    | none => exact (ih hcs).cons _
    | some x =>
      have hx := time_of_mapRow hc x rfl
      rw [Option.toList_some, List.singleton_append, List.map_cons, List.map_cons, hx]
      exact (ih hcs).cons_cons _

/-- A result has one value per row, and its times are those mapped, or only the time given. -/
theorem of_reduceRows_eq_ok {mapped : List Contribution} {time : Instant} {rows : List Row}
    (h : op.reduceRows mapped time = .ok rows) :
    (∀ r ∈ rows, r.values.length = 1) ∧
      ((rows.map (·.time)).Sublist (mapped.map (·.1)) ∨ (rows.map (·.time)).Sublist [time]) := by
  have hsingle : ∀ v : Option Value,
      (∀ r ∈ (v.map fun v => (⟨time, [v]⟩ : Row)).toList, r.values.length = 1) ∧
        (((v.map fun v => (⟨time, [v]⟩ : Row)).toList).map (·.time)).Sublist [time] := by
    intro v
    cases v with
    | none => exact ⟨nofun, List.nil_sublist _⟩
    | some v => exact ⟨fun r hr => List.mem_singleton.1 hr ▸ rfl, .refl _⟩
  rw [reduceRows] at h
  split at h
  · cases h
    refine ⟨?_, .inl ?_⟩
    · intro r hr
      obtain ⟨x, -, rfl⟩ := List.mem_map.1 hr
      rfl
    · rw [List.map_map]
      exact .refl _
  · cases h
    exact (hsingle _).imp_right .inr
  · cases h
    exact (hsingle _).imp_right .inr
  · cases h
    exact (hsingle _).imp_right .inr
  · obtain ⟨xs, -, h⟩ := bind_eq_ok.1 h
    cases h
    exact (hsingle _).imp_right .inr

theorem of_onBatch_eq_some (h : op.onBatch b = .ok (some b')) :
    b.Thins b' ∧ b'.rows ≠ [] ∧ b'.columns = [op.column] ∧
      ∀ r ∈ b'.rows, r.values.length = 1 := by
  rw [onBatch] at h
  split at h
  · cases h
  · rename_i time htime
    obtain ⟨index, -, h⟩ := bind_eq_ok.1 h
    obtain ⟨mapped, hmapped, h⟩ := bind_eq_ok.1 h
    obtain ⟨rows, hrows, h⟩ := bind_eq_ok.1 h
    obtain ⟨hwidth, htimes⟩ := of_reduceRows_eq_ok hrows
    have hlast : [time].Sublist b.times := by
      obtain ⟨row, hrow, rfl⟩ := Option.map_eq_some_iff.1 htime
      exact List.singleton_sublist.2 (List.mem_map_of_mem (List.mem_of_getLast? hrow))
    have hsub : (rows.map (·.time)).Sublist b.times :=
      htimes.elim (·.trans (times_mapRows hmapped)) (·.trans hlast)
    have hsome := Except.ok.inj h
    split at hsome
    · cases hsome
    · rename_i hne
      cases hsome
      exact ⟨⟨rfl, hsub⟩, fun hnil => hne (List.isEmpty_iff.2 hnil), rfl, hwidth⟩

end Reducing

namespace Operator

/-- Takes a request at the clock's time `now`. -/
def answer (op : Operator) (now : Instant) : Request → Operator × Except StageFault Emitted
  | .batch port b => op.onBatch now port b
  | .watermark t => ((op.onWatermark t).1, .ok (op.onWatermark t).2)
  | .close => (op.onClose.1, .ok op.onClose.2)

/-- Takes requests one after the other, each at its own time. After a fault the operator goes on
with what it has. -/
def serve (op : Operator) : List (Instant × Request) → Operator × List (Except StageFault Emitted)
  | [] => (op, [])
  | (now, r) :: rest =>
    let (op, answer) := op.answer now r
    let (op, answers) := serve op rest
    (op, answer :: answers)

end Operator

end SeriesPipeline
