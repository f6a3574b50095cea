import SeriesPipeline.Operator.Merging
import SeriesPipeline.Proofs.Data.Shape
import SeriesPipeline.Proofs.Operator.Requests

/-!
# Parts of a union

A union puts the parts of an alignment in order of their ports and appends their rows, so what it
makes of them depends only on what came from each port. The merged batch holds every row of every
part, in order of time.
-/

namespace SeriesPipeline

theorem Request.filter_port_eq (port : Nat) (log : List (Nat × Batch)) :
    log.filter (fun e => e.1 = port) = (fromPort port log).map (port, ·) := by
  rw [fromPort, List.map_map]
  refine (List.map_id _).symm.trans (List.map_congr_left fun e he => ?_)
  rw [← of_decide_eq_true (List.mem_filter.1 he).2]
  rfl

/-- Batches that were put one port after the other. -/
theorem Request.fromPort_flatMap_range (port ports : Nat) (f : Nat → List Batch) :
    fromPort port ((List.range ports).flatMap fun i => (f i).map (i, ·)) =
      if port < ports then f port else [] := by
  have hown : ∀ i, fromPort port ((f i).map (i, ·)) = if i = port then f i else [] := by
    intro i
    rw [fromPort, List.filter_map, List.map_map]
    by_cases hi : i = port
    · simp [Function.comp_def, hi]
    · simp [Function.comp_def, hi]
  induction ports with
  | zero => rfl
  | succ ports ih =>
    rw [List.range_succ, List.flatMap_append, fromPort_append, ih, List.flatMap_singleton, hown]
    by_cases hport : ports = port
    · rw [if_neg (by omega), if_pos hport, if_pos (by omega), hport, List.nil_append]
    · rw [if_neg hport, List.append_nil]
      by_cases hlt : port < ports
      · rw [if_pos hlt, if_pos (by omega)]
      · rw [if_neg hlt, if_neg (by omega)]

namespace Merging

variable {op : Merging} {key : Alignment} {parts parts' : Parts}

/-- Only the order within each port matters. -/
theorem merge_congr (h : ∀ port, Request.fromPort port parts = Request.fromPort port parts') :
    op.merge key parts = op.merge key parts' := by
  have hsorted : parts.mergeSort (fun p q => decide (p.1 ≤ q.1)) =
      parts'.mergeSort (fun p q => decide (p.1 ≤ q.1)) := by
    have hstable := stablyOrdered_mergeSort (Prod.fst : Nat × Batch → Nat) parts
    have hstable' := stablyOrdered_mergeSort (Prod.fst : Nat × Batch → Nat) parts'
    refine eq_of_filter_eq hstable.ordered hstable'.ordered fun port => ?_
    rw [hstable.stable, hstable'.stable, Request.filter_port_eq, Request.filter_port_eq, h]
  rw [merge, merge, hsorted]

theorem mergeSort_eq_self (h : parts.Pairwise fun p q => p.1 ≤ q.1) :
    parts.mergeSort (fun p q => decide (p.1 ≤ q.1)) = parts :=
  List.mergeSort_of_pairwise (h.imp fun hle => decide_eq_true hle)

/-- A merge appends the rows of its parts one after the other. -/
theorem foldl_pushRows (parts : Parts) (out : Batch) :
    parts.foldl (fun out part => pushRows out part.2) out =
      out.pushAll (parts.flatMap (·.2.entries)) := by
  rw [Batch.pushAll, List.foldl_flatMap]
  simp only [Batch.entries, List.foldl_map]
  rfl

theorem tags_merge : (op.merge key parts).tags = key.tags := by
  rw [merge, foldl_pushRows]
  exact Batch.tags_pushAll

theorem window_merge : (op.merge key parts).window = some key.window := by
  rw [merge, foldl_pushRows]
  exact Batch.window_pushAll

/-- A merged batch has the times of its parts. -/
theorem mem_times_merge {t : Instant} :
    t ∈ (op.merge key parts).times ↔ ∃ p ∈ parts, t ∈ p.2.times := by
  have htimes : ∀ b : Batch, b.entries.map Entry.time = b.times := fun b => List.map_map
  rw [merge, (Batch.times_sortRows_perm _).mem_iff, foldl_pushRows, Batch.times_pushAll, Batch.times,
    List.map_nil, List.nil_append, List.map_flatMap, List.mem_flatMap]
  simp only [htimes]
  exact exists_congr fun p => and_congr_left' (List.mergeSort_perm _ _).mem_iff

/-- A merged batch holds every row of its parts, those of one time in order of the ports. -/
theorem holdsInOrder_merge (hparts : ∀ p ∈ parts, p.2.Consistent)
    (hsorted : parts.Pairwise fun p q => p.1 ≤ q.1) :
    (op.merge key parts).HoldsInOrder (parts.flatMap (·.2.entries)) := by
  have hentries : ∀ e ∈ parts.flatMap (·.2.entries), e.WellFormed := by
    intro e he
    obtain ⟨p, hp, he⟩ := List.mem_flatMap.1 he
    exact (hparts p hp).wellFormed e he
  rw [merge, mergeSort_eq_self hsorted, foldl_pushRows]
  exact ((Batch.holds_nil _ _ _).pushAll hentries).sortRows

end Merging

end SeriesPipeline
