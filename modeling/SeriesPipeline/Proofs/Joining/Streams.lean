import SeriesPipeline.Proofs.Joining.Completion
import SeriesPipeline.Proofs.Joining.Shape
import SeriesPipeline.Proofs.Stage.Interleaving

/-!
# Joins of interleaved streams

A stage that joins streams sends the same batches for every interleaving: one for each alignment
that every stream has, the parts in order of the streams.
-/

namespace SeriesPipeline.Joining

theorem performs (now : Instant) : Performs now .joining take where
  batch _ _ _ := rfl
  watermark _ _ := rfl
  close _ := rfl

/-- Every stream has a batch for the alignment. -/
def OnAll (op : Joining) (streams : List (List Message)) (key : Alignment) : Prop :=
  ∀ s ∈ streams, ∃ b ∈ batchesOf s, op.alignment? b = some key

instance (op : Joining) (streams : List (List Message)) (key : Alignment) :
    Decidable (op.OnAll streams key) :=
  inferInstanceAs (Decidable (∀ s ∈ streams, ∃ b ∈ batchesOf s, op.alignment? b = some key))

/-- The batches for an alignment in the order of the streams. -/
def parts (op : Joining) (streams : List (List Message)) (key : Alignment) : List Batch :=
  streams.filterMap fun s => (batchesOf s).find? fun b => op.alignment? b = some key

/-- An alignment of some stream has a batch there. -/
theorem parts_ne_nil {op : Joining} {streams : List (List Message)} {key : Alignment}
    (h : key ∈ keysIn op.alignment? streams) : op.parts streams key ≠ [] := by
  rw [keysIn, List.mem_toFinset, List.mem_flatMap] at h
  obtain ⟨s, hs, hkey⟩ := h
  obtain ⟨b, hb, hkey⟩ := List.mem_filterMap.1 hkey
  obtain ⟨first, hfirst⟩ : ∃ first,
      (batchesOf s).find? (fun b => op.alignment? b = some key) = some first :=
    Option.isSome_iff_exists.1 (List.find?_isSome.2 ⟨b, hb, decide_eq_true hkey⟩)
  exact List.ne_nil_of_mem (List.mem_filterMap.2 ⟨s, hs, hfirst⟩)

section Streams

variable {streams : List (List Message)} {log : List (Nat × Batch)} (h : Carries streams log)
include h

theorem slotsOf_eq_map (op : Joining) (key : Alignment) : op.slotsOf streams.length log key =
    streams.map fun s => (batchesOf s).find? fun b => op.alignment? b = some key := by
  apply List.ext_getElem
  · rw [slotsOf, List.length_map, List.length_map, List.length_range]
  · intro port hport hport'
    rw [List.length_map] at hport'
    simp only [slotsOf, List.getElem_map, List.getElem_range]
    rw [part, h.fromPort_eq hport']

theorem filled_iff_onAll (op : Joining) (key : Alignment) :
    op.Filled streams.length log key ↔ op.OnAll streams key := by
  rw [Filled, slotsOf_eq_map h, OnAll, List.all_map, List.all_eq_true]
  simp only [Function.comp, List.find?_isSome, decide_eq_true_eq]

theorem joined_eq_map (op : Joining) : op.joined streams.length log =
    ((keysIn op.alignment? streams).filter (op.OnAll streams)).val.map
      fun key => op.combine key (op.parts streams key) := by
  have hcompleted : op.completed streams.length log =
      (keysIn op.alignment? streams).filter (op.OnAll streams) := by
    ext key
    rw [completed, Finset.mem_filter, Finset.mem_filter, h.keysOf_eq, filled_iff_onAll h]
  have hparts : ∀ key, (op.slotsOf streams.length log key).reduceOption = op.parts streams key := by
    intro key
    rw [slotsOf_eq_map h, List.reduceOption, List.filterMap_map]
    rfl
  simp only [joined, hcompleted, hparts]

/-- Streams without repeated alignments can be joined, if the horizon has room for all. -/
theorem joinable_of_carries {op : Joining} {requests : List Request}
    (hlog : Request.batches requests = log) (hinTime : Request.InTime requests)
    (haliases : op.aliases.length = streams.length)
    (haligned : ∀ e ∈ log, e.2.alignmentWindow.isSome)
    (hdistinct : ∀ s ∈ streams, ((batchesOf s).filterMap op.alignment?).Nodup)
    (hhorizon : (keysIn op.alignment? streams).card ≤ op.horizon) :
    op.Joinable op.aliases.length requests := by
  subst hlog
  refine ⟨haliases ▸ h.port_lt, fun e he => ?_, fun port => ?_, hinTime, ?_⟩
  · rw [alignment?, Option.isSome_map]
    exact haligned e he
  · by_cases hport : port < streams.length
    · rw [h.fromPort_eq hport]
      exact hdistinct _ (List.getElem_mem hport)
    · rw [h port, List.getElem?_eq_none (Nat.le_of_not_lt hport)]
      exact List.nodup_nil
  · rw [h.keysOf_eq]
    exact hhorizon

end Streams

end SeriesPipeline.Joining
