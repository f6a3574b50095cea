import Mathlib.Data.Finset.Insert
import SeriesPipeline.Operator.Alignment
import SeriesPipeline.Proofs.Operator.Requests

/-!
# Alignments of batches

The alignments that some batches belong to, where `align` tells the alignment of each batch.
-/

namespace SeriesPipeline

/-- The alignments of some batches. -/
def keysOf (align : Batch → Option Alignment) (log : List (Nat × Batch)) : Finset Alignment :=
  (log.filterMap fun e => align e.2).toFinset

variable {align : Batch → Option Alignment} {log : List (Nat × Batch)} {key : Alignment}

theorem mem_keysOf : key ∈ keysOf align log ↔ ∃ e ∈ log, align e.2 = some key := by
  rw [keysOf, List.mem_toFinset, List.mem_filterMap]

theorem keysOf_subset_append (later : List (Nat × Batch)) :
    keysOf align log ⊆ keysOf align (log ++ later) := by
  intro key hkey
  obtain ⟨e, he, hkey⟩ := mem_keysOf.1 hkey
  exact mem_keysOf.2 ⟨e, List.mem_append_left _ he, hkey⟩

theorem keysOf_append {b : Batch} (h : align b = some key) (port : Nat) :
    keysOf align (log ++ [(port, b)]) = insert key (keysOf align log) := by
  ext key'
  rw [Finset.mem_insert, mem_keysOf, mem_keysOf]
  simp only [List.mem_append, List.mem_singleton, or_and_right, exists_or, exists_eq_left, h,
    Option.some.injEq]
  rw [or_comm, eq_comm]

end SeriesPipeline
