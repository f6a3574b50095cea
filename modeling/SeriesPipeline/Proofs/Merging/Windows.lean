import SeriesPipeline.Operator.Merging
import SeriesPipeline.Proofs.Operator.Keys
import SeriesPipeline.Proofs.SortedMap
import SeriesPipeline.Proofs.Time.Order

/-!
# Windows of unions

While no batch comes late, a union merges each alignment once: when a watermark passes its window,
or at the end of the input.
-/

namespace SeriesPipeline.Merging

def take (op : Merging) : Request → Merging × List Batch
  | .batch port b => (op.onBatch port b, [])
  | .watermark t => op.onWatermark t
  | .close => op.onClose

/-- Where a batch belongs: its window and its tags. -/
def alignment? (b : Batch) : Option Alignment := b.alignmentWindow.map (⟨·, b.tags⟩)

/-- The parts of an alignment, in order of arrival. -/
def partsOf (log : List (Nat × Batch)) (key : Alignment) : Parts :=
  log.filter fun e => alignment? e.2 = some key

/-- The alignments whose window no watermark has passed. -/
def opened (requests : List Request) : Finset Alignment :=
  (keysOf alignment? (Request.batches requests)).filter fun key =>
    ¬ Request.passes requests key.window.stop

/-- The alignments whose window a watermark has passed. -/
def passed (requests : List Request) : Finset Alignment :=
  (keysOf alignment? (Request.batches requests)).filter fun key =>
    Request.passes requests key.window.stop

/-- What comes of merging the parts of some alignments. -/
def merged (op : Merging) (log : List (Nat × Batch)) (keys : Finset Alignment) : Multiset Batch :=
  keys.val.map fun key => op.merge key (partsOf log key)

/-- What has become of a union by some requests. -/
structure Merged (start : Merging) (requests : List Request) (op : Merging) (out : List Batch) :
    Prop where
  config : op = { start with pending := op.pending }
  pending : op.pending.Tabulates (opened requests) (partsOf (Request.batches requests))
  out : (out : Multiset Batch) = start.merged (Request.batches requests) (passed requests)

variable {start op : Merging} {requests : List Request} {out : List Batch}
  {log : List (Nat × Batch)} {key : Alignment} {b : Batch} {port : Nat}

theorem mem_opened : key ∈ opened requests ↔ key ∈ keysOf alignment? (Request.batches requests) ∧
    Request.passes requests key.window.stop = false := by
  rw [opened, Finset.mem_filter, Bool.not_eq_true]

theorem partsOf_eq_nil (h : key ∉ keysOf alignment? log) : partsOf log key = [] := by
  rw [partsOf, List.filter_eq_nil_iff]
  intro e he hkey
  exact h (mem_keysOf.2 ⟨e, he, of_decide_eq_true hkey⟩)

theorem partsOf_append (h : alignment? b = some key) :
    partsOf (log ++ [(port, b)]) key = partsOf log key ++ [(port, b)] := by
  rw [partsOf, List.filter_append, List.filter_cons_of_pos (by exact decide_eq_true h)]
  rfl

theorem partsOf_append_of_ne (h : alignment? b = some key) {key' : Alignment} (hne : key' ≠ key) :
    partsOf (log ++ [(port, b)]) key' = partsOf log key' := by
  rw [partsOf, List.filter_append, List.filter_cons_of_neg]
  · exact List.append_nil _
  · rw [decide_eq_true_eq, h, Option.some.injEq]
    exact Ne.symm hne

/-- All that is merged at once comes from a table of parts. -/
theorem coe_mergeAll (op : Merging) {pending : SortedMap Alignment Parts} {keys : Finset Alignment}
    (h : pending.Tabulates keys (partsOf log)) :
    (op.mergeAll pending : Multiset Batch) = op.merged log keys := by
  rw [mergeAll, SortedMap.toList, ← Multiset.map_coe, h.entries_eq, Multiset.map_map]
  rfl

/-- A union after some requests merges as it did at its start. -/
theorem Merged.merged_eq (h : Merged start requests op out) (log : List (Nat × Batch))
    (keys : Finset Alignment) : op.merged log keys = start.merged log keys := by
  rw [h.config]
  rfl

/-! ## One request -/

theorem onBatch_eq (op : Merging) (port : Nat) (h : alignment? b = some key) :
    op.onBatch port b =
      { op with
        pending := op.pending.insert key ((op.pending.get? key).getD [] ++ [(port, b)]) } := by
  obtain ⟨window, hwindow, rfl⟩ := Option.map_eq_some_iff.1 h
  rw [onBatch, hwindow]

section Batch

variable (hkey : alignment? b = some key)
  (hinTime : Request.InTime (requests ++ [.batch port b]))
include hkey hinTime

theorem passes_eq_false : Request.passes requests key.window.stop = false := by
  obtain ⟨window, hwindow, rfl⟩ := Option.map_eq_some_iff.1 hkey
  exact hinTime.passes_eq_false hwindow

theorem opened_batch : opened (requests ++ [.batch port b]) = insert key (opened requests) := by
  have hpasses := passes_eq_false hkey hinTime
  ext key'
  rw [Finset.mem_insert, mem_opened, mem_opened, Request.batches_batch, keysOf_append hkey,
    Request.passes_batch, Finset.mem_insert]
  by_cases hne : key' = key
  · subst hne
    exact iff_of_true ⟨.inl rfl, hpasses⟩ (.inl rfl)
  · simp only [hne, false_or]

theorem passed_batch : passed (requests ++ [.batch port b]) = passed requests := by
  have hpasses := passes_eq_false hkey hinTime
  ext key'
  rw [passed, passed, Finset.mem_filter, Finset.mem_filter, Request.batches_batch,
    keysOf_append hkey, Request.passes_batch, Finset.mem_insert]
  by_cases hne : key' = key
  · subst hne
    rw [hpasses]
    exact iff_of_false (fun h => Bool.false_ne_true h.2) (fun h => Bool.false_ne_true h.2)
  · simp only [hne, false_or]

/-- A batch in time joins the parts of its alignment. -/
theorem Merged.batch (h : Merged start requests op out) :
    Merged start (requests ++ [.batch port b]) (op.onBatch port b) out := by
  have hbatches := Request.batches_batch requests port b
  have hparts : (op.pending.get? key).getD [] = partsOf (Request.batches requests) key := by
    by_cases hmem : key ∈ opened requests
    · rw [h.pending.of_mem key hmem, Option.getD_some]
    · -- an alignment that has come before is still open, since the batch is in time
      have hnone : key ∉ keysOf alignment? (Request.batches requests) :=
        fun hold => hmem (mem_opened.2 ⟨hold, passes_eq_false hkey hinTime⟩)
      rw [h.pending.of_notMem key hmem, Option.getD_none, partsOf_eq_nil hnone]
  rw [onBatch_eq op port hkey, hparts, ← partsOf_append hkey]
  refine ⟨?_, ?_, ?_⟩
  · rw [h.config]
  · rw [opened_batch hkey hinTime, hbatches]
    exact h.pending.insert fun key' _ hne => partsOf_append_of_ne hkey hne
  · rw [passed_batch hkey hinTime, hbatches, h.out]
    -- what has been merged gets no more parts
    refine Multiset.map_congr rfl fun key' hkey' => ?_
    have hne : key' ≠ key := by
      rintro rfl
      have hpassed := (Finset.mem_filter.1 (show key' ∈ passed requests from hkey')).2
      rw [passes_eq_false hkey hinTime] at hpassed
      cases hpassed
    rw [partsOf_append_of_ne hkey hne]

end Batch

/-- A watermark merges the alignments that it passes. -/
theorem Merged.watermark (h : Merged start requests op out) (t : Instant) :
    Merged start (requests ++ [.watermark t]) (op.onWatermark t).1
      (out ++ (op.onWatermark t).2) := by
  have hbatches := Request.batches_watermark requests t
  have hrest : opened (requests ++ [.watermark t]) =
      (opened requests).filter fun key => !decide (key.window.stop ≤ t) := by
    ext key
    rw [Finset.mem_filter, mem_opened, mem_opened, hbatches, Request.passes_watermark,
      Bool.or_eq_false_iff, Bool.not_eq_true', and_assoc]
  have hdisjoint : Disjoint (passed requests)
      ((opened requests).filter fun key => decide (key.window.stop ≤ t)) := by
    rw [Finset.disjoint_left]
    intro key hpassed hready
    have hopen := (mem_opened.1 (Finset.mem_filter.1 hready).1).2
    rw [(Finset.mem_filter.1 hpassed).2] at hopen
    cases hopen
  -- the alignments that the watermark passes were open before it, so none is merged again
  have hready : passed (requests ++ [.watermark t]) = (passed requests).disjUnion
      ((opened requests).filter fun key => decide (key.window.stop ≤ t)) hdisjoint := by
    ext key
    rw [Finset.mem_disjUnion, Finset.mem_filter, mem_opened, passed, passed, Finset.mem_filter,
      Finset.mem_filter, hbatches, Request.passes_watermark, Bool.or_eq_true]
    cases Request.passes requests key.window.stop <;> simp
  refine ⟨?_, ?_, ?_⟩
  · rw [h.config]
    rfl
  · rw [hrest, hbatches]
    exact h.pending.filter fun key => !decide (key.window.stop ≤ t)
  · have hmerged := coe_mergeAll op
      (h.pending.filter fun key => decide (key.window.stop ≤ t))
    rw [merged, hready, hbatches, Finset.disjUnion_val, Multiset.map_add, ← merged, ← merged,
      ← h.out, ← Multiset.coe_add, ← h.merged_eq, ← hmerged]
    rfl

/-! ## Whole runs -/

theorem merged_new (hpending : start.pending = ∅) : Merged start [] start [] := by
  refine ⟨rfl, ?_, rfl⟩
  rw [hpending]
  exact SortedMap.tabulates_empty _

theorem merged_run (hpending : start.pending = ∅)
    (haligned : ∀ e ∈ Request.batches requests, (alignment? e.2).isSome)
    (hinTime : Request.InTime requests) (hclose : .close ∉ requests) :
    Merged start requests (Request.run take start requests).1
      (Request.run take start requests).2 := by
  -- from the end, since what has become of the union is told by all requests so far
  induction requests using List.reverseRecOn with
  | nil => exact merged_new hpending
  | append_singleton requests c ih =>
    have hold := ih
      (fun e he => haligned e (Request.batches_append requests [c] ▸ List.mem_append_left _ he))
      (List.pairwise_append.1 hinTime).1 fun hc => hclose (List.mem_append_left _ hc)
    rw [Request.run_concat]
    cases c with
    | batch port b =>
      have hmem : (port, b) ∈ Request.batches (requests ++ [.batch port b]) := by
        rw [Request.batches_batch]
        exact List.mem_append_right _ List.mem_cons_self
      obtain ⟨key, hkey⟩ := Option.isSome_iff_exists.1 (haligned _ hmem)
      rw [take, List.append_nil]
      exact hold.batch hkey hinTime
    | watermark t => exact hold.watermark t
    | close => exact absurd (List.mem_append_right _ List.mem_cons_self) hclose

/-- At the end of the input, all alignments have been merged once. -/
theorem Merged.out_onClose (h : Merged start requests op out) :
    ((out ++ op.onClose.2 : List Batch) : Multiset Batch) =
      start.merged (Request.batches requests) (keysOf alignment? (Request.batches requests)) := by
  have hrest := (coe_mergeAll op h.pending).trans (h.merged_eq _ _)
  rw [← Multiset.coe_add, h.out, onClose, hrest, merged, merged, ← Multiset.map_add, merged]
  refine congrArg _ ?_
  rw [passed, opened, Finset.filter_val, Finset.filter_val]
  exact Multiset.filter_add_not _ _

end SeriesPipeline.Merging
