import SeriesPipeline.Proofs.Joining.Shape
import SeriesPipeline.Proofs.Merging.Shape

/-!
# What joins and unions hold back

A property of batches and their alignments holds of every batch that is held back if it holds of
those that come in. What is given out is made of such batches, and the rows of a joined batch are at
the latest of their parts' times.
-/

namespace SeriesPipeline

variable {P Q : Alignment → Batch → Prop} {key : Alignment} {b b' : Batch} {t : Instant}

namespace Joining

/-- Every batch that is held back has the property, together with its alignment. -/
def AllParts (P : Alignment → Batch → Prop) (op : Joining) : Prop :=
  op.pending.All fun key slots => ∀ b, some b ∈ slots → P key b

variable {op : Joining} {parts : List Batch} {slots : Slots}

theorem allParts_of_pending_eq (h : op.pending = ∅) : op.AllParts P := by
  rw [AllParts, h]
  exact SortedMap.all_empty

theorem mem_of_complete? (h : complete? slots = some parts) {p : Batch} (hp : p ∈ parts) :
    some p ∈ slots := by
  rw [complete?_eq] at h
  split at h
  · cases h
    exact List.reduceOption_mem_iff.1 hp
  · cases h

theorem AllParts.imp (h : op.AllParts P) (hPQ : ∀ key b, P key b → Q key b) : op.AllParts Q :=
  SortedMap.All.imp h fun key _ hslots b hb => hPQ key b (hslots b hb)

theorem AllParts.onBatch (h : op.AllParts P) (port : Nat)
    (hb : ∀ key ∈ op.alignment? b, P key b) :
    (op.onBatch port b).1.AllParts P ∧ ∀ b' ∈ (op.onBatch port b).2,
      ∃ key parts, (∀ p ∈ parts, P key p) ∧ b' = op.combine key parts := by
  rw [Joining.onBatch]
  cases hkey : op.alignment? b with
  | none => exact ⟨h, fun _ hb' => absurd hb' (Option.not_mem_none _)⟩
  | some key =>
    have hbefore : ∀ p, some p ∈ (op.pending.get? key).getD
        (List.replicate op.aliases.length none) → P key p :=
      SortedMap.All.getD h fun p hp => absurd (List.mem_replicate.1 hp).2 (Option.some_ne_none p)
    have hslots : ∀ p, some p ∈ ((op.pending.get? key).getD
        (List.replicate op.aliases.length none)).set port (some b) → P key p := by
      intro p hp
      rcases List.mem_or_eq_of_mem_set hp with hp | hp
      · exact hbefore p hp
      · cases hp
        exact hb key hkey
    dsimp only
    split
    · rename_i parts hparts
      refine ⟨SortedMap.All.filter h _, fun b' hb' => ?_⟩
      cases hb'
      exact ⟨key, parts, fun p hp => hslots p (mem_of_complete? hparts hp), rfl⟩
    · refine ⟨(SortedMap.All.insert h hslots).keepLast _, ?_⟩
      rintro b' ⟨⟩

/-- A watermark leaves what belongs to windows after it. -/
theorem AllParts.onWatermark (h : op.AllParts P) (t : Instant) :
    (op.onWatermark t).AllParts fun key b => P key b ∧ t < key.window.stop := by
  intro e he b hb
  obtain ⟨hmem, hstop⟩ := List.mem_filter.1 he
  exact ⟨h e hmem b hb, of_decide_eq_true hstop⟩

/-- A joined row is at the time of a row of some part. -/
theorem exists_mem_times_of_combine {u : Instant} (hu : u ∈ (op.combine key parts).times) :
    ∃ p ∈ parts, u ∈ p.times := by
  have hne : parts ≠ [] := by
    rintro rfl
    cases hu
  exact (sideBySide_combine op key hne).exists_time_eq hu

end Joining

namespace Merging

/-- Every batch that is held back has the property, together with its alignment. -/
def AllParts (P : Alignment → Batch → Prop) (op : Merging) : Prop :=
  op.pending.All fun key parts => ∀ p ∈ parts, P key p.2

variable {op : Merging} {parts : Parts}

theorem allParts_of_pending_eq (h : op.pending = ∅) : op.AllParts P := by
  rw [AllParts, h]
  exact SortedMap.all_empty

theorem AllParts.imp (h : op.AllParts P) (hPQ : ∀ key b, P key b → Q key b) : op.AllParts Q :=
  SortedMap.All.imp h fun key _ hparts p hp => hPQ key p.2 (hparts p hp)

theorem AllParts.onBatch (h : op.AllParts P) (port : Nat)
    (hb : ∀ w ∈ b.alignmentWindow, P ⟨w, b.tags⟩ b) : (op.onBatch port b).AllParts P := by
  rw [Merging.onBatch]
  cases hwindow : b.alignmentWindow with
  | none => exact h
  | some w =>
    have hbefore : ∀ p ∈ (op.pending.get? ⟨w, b.tags⟩).getD [], P ⟨w, b.tags⟩ p.2 :=
      SortedMap.All.getD h fun _ hp => absurd hp List.not_mem_nil
    refine SortedMap.All.insert h ?_
    exact List.forall_mem_append.2 ⟨hbefore, List.forall_mem_singleton.2 (hb w hwindow)⟩

theorem exists_parts_of_mem_mergeAll {pending : SortedMap Alignment Parts}
    (h : pending.All fun key parts => ∀ p ∈ parts, P key p.2) (hb : b ∈ op.mergeAll pending) :
    ∃ key parts, (∀ p ∈ parts, P key p.2) ∧ b = op.merge key parts := by
  obtain ⟨e, he, rfl⟩ := List.mem_map.1 hb
  exact ⟨e.1, e.2, h e he, rfl⟩

theorem AllParts.onClose (h : op.AllParts P) :
    op.onClose.1.AllParts Q ∧ ∀ b ∈ op.onClose.2, ∃ key parts, (∀ p ∈ parts, P key p.2) ∧
      b = op.merge key parts :=
  ⟨allParts_of_pending_eq rfl, fun _ hb => exists_parts_of_mem_mergeAll h hb⟩

/-- A watermark leaves what belongs to windows after it, and the rest is merged. -/
theorem AllParts.onWatermark (h : op.AllParts P) (t : Instant) :
    ((op.onWatermark t).1.AllParts fun key b => P key b ∧ t < key.window.stop) ∧
      ∀ b ∈ (op.onWatermark t).2, ∃ key parts, (∀ p ∈ parts, P key p.2) ∧
        b = op.merge key parts := by
  refine ⟨fun e he p hp => ?_, fun b hb =>
    exists_parts_of_mem_mergeAll (SortedMap.All.filter h _) hb⟩
  obtain ⟨hmem, hstop⟩ := List.mem_filter.1 he
  exact ⟨h e hmem p hp, not_le.1 fun hle => by simp [hle] at hstop⟩

end Merging

end SeriesPipeline
