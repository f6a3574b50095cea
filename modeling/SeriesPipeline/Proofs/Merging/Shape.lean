import SeriesPipeline.Proofs.Data.Shape
import SeriesPipeline.Proofs.Merging.Parts
import SeriesPipeline.Proofs.SortedMap

/-!
# The shape of merged batches

A union holds back batches for their windows. What it makes of them is a well-formed batch with the
rows of all, under columns that are distinct.
-/

namespace SeriesPipeline.Merging

/-- Some batches that are held back for the window of their alignment. -/
structure ShapedParts (enclosed : Prop) (key : Alignment) (parts : Parts) : Prop where
  nonempty : parts ≠ []
  held : ∀ p ∈ parts, p.2.HeldFor enclosed key.window

/-- What is pending has its shape. -/
def Shaped (enclosed : Prop) (op : Merging) : Prop := op.pending.All (ShapedParts enclosed)

variable {enclosed : Prop} {op : Merging} {key : Alignment} {parts : Parts} {b : Batch}

theorem ShapedParts.fits_merge (h : ShapedParts enclosed key parts) :
    (op.merge key parts).Fits True enclosed := by
  let sorted := parts.mergeSort fun p q => decide (p.1 ≤ q.1)
  have hwidth : ∀ e ∈ sorted.flatMap (·.2.entries), e.row.values.length = e.columns.length := by
    intro e he
    obtain ⟨p, hp, he⟩ := List.mem_flatMap.1 he
    obtain ⟨row, hrow, rfl⟩ := List.mem_map.1 he
    exact (h.held p ((List.mergeSort_perm _ _).mem_iff.1 hp)).wellFormed.width row hrow
  refine ⟨⟨fun hnil => ?_, ?_, Batch.pairwise_times_sortRows _⟩, fun _ => ?_,
    fun henclosed => ⟨key.window, window_merge, fun t ht => ?_⟩⟩
  · obtain ⟨p, hp⟩ := List.exists_mem_of_ne_nil _ h.nonempty
    obtain ⟨row, hrow⟩ := List.exists_mem_of_ne_nil _ (h.held p hp).wellFormed.nonempty
    have htime : row.time ∈ (op.merge key parts).times :=
      mem_times_merge.2 ⟨p, hp, List.mem_map_of_mem hrow⟩
    rw [Batch.times, hnil] at htime
    cases htime
  · rw [merge, foldl_pushRows]
    apply Batch.Rectangular.sortRows
    exact Batch.Rectangular.pushAll (List.forall_mem_nil _) hwidth
  · -- the merge starts without columns, so whatever it adds is distinct
    rw [merge, foldl_pushRows]
    exact Batch.nodup_columns_pushAll List.nodup_nil
  · obtain ⟨p, hp, ht⟩ := mem_times_merge.1 ht
    exact (h.held p hp).contains henclosed t ht

theorem fits_of_mem_mergeAll {pending : SortedMap Alignment Parts}
    (h : pending.All (ShapedParts enclosed)) (hb : b ∈ op.mergeAll pending) :
    b.Fits True enclosed := by
  obtain ⟨e, he, rfl⟩ := List.mem_map.1 hb
  exact (h e he).fits_merge

section Steps

variable (h : op.Shaped enclosed)
include h

theorem Shaped.onBatch {distinct : Prop} (hb : b.Fits distinct enclosed) (port : Nat) :
    (op.onBatch port b).Shaped enclosed := by
  rw [Merging.onBatch]
  cases hwindow : b.alignmentWindow with
  | none => exact h
  | some w =>
    have hheld : ∀ p ∈ (op.pending.get? ⟨w, b.tags⟩).getD [], p.2.HeldFor enclosed w :=
      (SortedMap.All.imp h fun _ _ hparts => hparts.held).getD nofun
    refine SortedMap.All.insert h ⟨List.concat_ne_nil _ _, ?_⟩
    exact List.forall_mem_append.2 ⟨hheld, List.forall_mem_singleton.2 (hb.heldFor hwindow)⟩

theorem Shaped.onWatermark (t : Instant) : (op.onWatermark t).1.Shaped enclosed ∧
    ∀ b ∈ (op.onWatermark t).2, b.Fits True enclosed :=
  ⟨SortedMap.All.filter h _, fun _ hb => fits_of_mem_mergeAll (SortedMap.All.filter h _) hb⟩

theorem Shaped.onClose : op.onClose.1.Shaped enclosed ∧
    ∀ b ∈ op.onClose.2, b.Fits True enclosed :=
  ⟨SortedMap.all_empty, fun _ hb => fits_of_mem_mergeAll h hb⟩

end Steps

end SeriesPipeline.Merging
