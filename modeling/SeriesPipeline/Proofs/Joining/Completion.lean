import SeriesPipeline.Proofs.Joining.Slots
import SeriesPipeline.Proofs.Time.Order

/-!
# Completion of joins

While no port delivers two batches of one alignment and no batch comes late, a join with a large
enough horizon puts out one batch for each alignment that has come on every port, and drops each of
the others once.
-/

namespace SeriesPipeline.Joining

def take (op : Joining) : Request → Joining × List Batch
  | .batch port b => ((op.onBatch port b).1, (op.onBatch port b).2.toList)
  | .watermark t => (op.onWatermark t, [])
  | .close => (op.onClose, [])

/-- The incomplete alignments whose window no watermark has passed. -/
def awaited (op : Joining) (ports : Nat) (requests : List Request) : Finset Alignment :=
  (op.incomplete ports (Request.batches requests)).filter fun key =>
    ¬ Request.passes requests key.window.stop

/-- The incomplete alignments whose window a watermark has passed. -/
def missed (op : Joining) (ports : Nat) (requests : List Request) : Finset Alignment :=
  (op.incomplete ports (Request.batches requests)).filter fun key =>
    Request.passes requests key.window.stop

/-- What has become of a join by some requests. -/
structure Joined (start : Joining) (ports : Nat) (requests : List Request) (op : Joining)
    (out : List Batch) : Prop where
  config : op = { start with pending := op.pending, dropped := op.dropped }
  pending : op.pending.Tabulates (start.awaited ports requests)
    (start.slotsOf ports (Request.batches requests))
  dropped : op.dropped = (start.missed ports requests).card
  out : (out : Multiset Batch) = start.joined ports (Request.batches requests)

/-- The batches come from known ports, each in time and no two of one port for one alignment, and
the horizon has room for all. -/
structure Joinable (start : Joining) (ports : Nat) (requests : List Request) : Prop where
  known : ∀ e ∈ Request.batches requests, e.1 < ports
  aligned : ∀ e ∈ Request.batches requests, (start.alignment? e.2).isSome
  distinct : ∀ port,
    ((Request.fromPort port (Request.batches requests)).filterMap start.alignment?).Nodup
  inTime : Request.InTime requests
  room : (keysOf start.alignment? (Request.batches requests)).card ≤ start.horizon

variable {start op : Joining} {ports : Nat} {requests : List Request} {out : List Batch}

theorem mem_awaited {op : Joining} {key : Alignment} : key ∈ op.awaited ports requests ↔
    key ∈ op.incomplete ports (Request.batches requests) ∧
      Request.passes requests key.window.stop = false := by
  rw [awaited, Finset.mem_filter, Bool.not_eq_true]

theorem card_missed_add_card_awaited (op : Joining) (ports : Nat) (requests : List Request) :
    (op.missed ports requests).card + (op.awaited ports requests).card =
      (op.incomplete ports (Request.batches requests)).card :=
  Finset.card_filter_add_card_filter_not _

/-! ## One request -/

theorem awaited_watermark (op : Joining) (ports : Nat) (requests : List Request) (t : Instant) :
    op.awaited ports (requests ++ [.watermark t]) =
      (op.awaited ports requests).filter fun key => decide (t < key.window.stop) := by
  ext key
  rw [Finset.mem_filter, mem_awaited, mem_awaited, Request.batches_watermark,
    Request.passes_watermark, Bool.or_eq_false_iff, decide_eq_false_iff_not, not_le, and_assoc,
    decide_eq_true_eq]

/-- A watermark drops the incomplete alignments that it passes. -/
theorem Joined.watermark (h : Joined start ports requests op out) (t : Instant) :
    Joined start ports (requests ++ [.watermark t]) (op.onWatermark t) out := by
  have hbatches := Request.batches_watermark requests t
  have hawaited := awaited_watermark start ports requests t
  have hpending : (op.onWatermark t).pending.Tabulates
      (start.awaited ports (requests ++ [.watermark t]))
      (start.slotsOf ports (Request.batches (requests ++ [.watermark t]))) := by
    rw [hbatches, hawaited]
    exact h.pending.filter fun key => decide (t < key.window.stop)
  refine ⟨?_, hpending, ?_, ?_⟩
  · rw [onWatermark, h.config]
  · have hfewer : (start.awaited ports (requests ++ [.watermark t])).card ≤
        (start.awaited ports requests).card := by
      rw [hawaited]
      exact Finset.card_filter_le _ _
    -- an incomplete alignment is either missed or awaited, before and after
    have hsum := card_missed_add_card_awaited start ports requests
    have hsum' := card_missed_add_card_awaited start ports (requests ++ [.watermark t])
    rw [hbatches] at hsum'
    show op.dropped + (op.pending.size - (op.onWatermark t).pending.size) = _
    rw [h.dropped, h.pending.size_eq, hpending.size_eq]
    omega
  · rw [hbatches]
    exact h.out

/-- A batch fills a slot; the slots are put out once all are filled. -/
theorem onBatch_eq {pending : SortedMap Alignment Slots} (dropped : Nat) {port : Nat} {b : Batch}
    {key : Alignment} {slots filled : Slots} (hkey : start.alignment? b = some key)
    (hslots : (pending.get? key).getD (List.replicate start.aliases.length none) = slots)
    (hfilled : filled = slots.set port (some b)) :
    onBatch { start with pending, dropped } port b =
      if filled.all (·.isSome) then
        ({ start with pending := pending.erase key, dropped },
          some (start.combine key filled.reduceOption))
      else ({ start with pending := pending.insert key filled, dropped }.enforceHorizon, none) := by
  have halign : alignment? { start with pending, dropped } b = some key := hkey
  rw [onBatch, halign]
  simp only [hslots, ← hfilled, complete?_eq]
  by_cases hall : filled.all (·.isSome) = true
  · rw [if_pos hall, if_pos hall]
    rfl
  · rw [if_neg hall, if_neg hall]

/-- With room for all that is pending, the horizon drops nothing. -/
theorem enforceHorizon_eq (h : op.pending.size ≤ op.horizon) : op.enforceHorizon = op := by
  have hnone : op.pending.size - op.horizon = 0 := by omega
  rw [enforceHorizon, SortedMap.keepLast_of_size_le h, hnone]
  rfl

section Batch

variable {port : Nat} {b : Batch} {key : Alignment}
  (hjoinable : start.Joinable ports (requests ++ [.batch port b]))
  (hkey : start.alignment? b = some key)
include hjoinable

theorem Joinable.port_lt : port < ports := by
  refine hjoinable.known (port, b) ?_
  rw [Request.batches_batch]
  exact List.mem_append_right _ List.mem_cons_self

include hkey

theorem Joinable.part_eq_none : start.part (Request.batches requests) key port = none := by
  rw [← Option.not_isSome_iff_eq_none, part_isSome]
  rintro ⟨b', hb', hkey'⟩
  have hdistinct := hjoinable.distinct port
  rw [Request.batches_batch, Request.fromPort_append, List.filterMap_append] at hdistinct
  have hown : key ∈ (Request.fromPort port [(port, b)]).filterMap start.alignment? := by
    rw [Request.fromPort]
    simp [hkey]
  exact (List.nodup_append.1 hdistinct).2.2 key (List.mem_filterMap.2 ⟨b', hb', hkey'⟩) key hown rfl

theorem Joinable.passes_eq_false : Request.passes requests key.window.stop = false := by
  obtain ⟨window, hwindow, rfl⟩ := Option.map_eq_some_iff.1 hkey
  exact hjoinable.inTime.passes_eq_false hwindow

theorem Joinable.mem_awaited_iff (key' : Alignment) :
    key' ∈ start.awaited ports (requests ++ [.batch port b]) ↔
      if key' = key then
        ¬ start.Filled ports (Request.batches requests ++ [(port, b)]) key
      else key' ∈ start.awaited ports requests := by
  rw [mem_awaited, mem_awaited, Request.batches_batch, Request.passes_batch]
  by_cases hne : key' = key
  · rw [if_pos hne, hne, mem_incomplete_append hkey]
    exact and_iff_left (hjoinable.passes_eq_false hkey)
  · rw [if_neg hne, mem_incomplete_append_of_ne hkey hne]

theorem Joinable.awaited_of_all
    (hall : start.Filled ports (Request.batches requests ++ [(port, b)]) key) :
    start.awaited ports (requests ++ [.batch port b]) =
      (start.awaited ports requests).erase key := by
  ext key'
  rw [hjoinable.mem_awaited_iff hkey, Finset.mem_erase]
  by_cases hne : key' = key
  · rw [if_pos hne]
    exact iff_of_false (fun h => h hall) (fun h => h.1 hne)
  · rw [if_neg hne]
    exact (and_iff_right hne).symm

theorem Joinable.awaited_of_not_all
    (hall : ¬ start.Filled ports (Request.batches requests ++ [(port, b)]) key) :
    start.awaited ports (requests ++ [.batch port b]) =
      insert key (start.awaited ports requests) := by
  ext key'
  rw [hjoinable.mem_awaited_iff hkey, Finset.mem_insert]
  by_cases hne : key' = key
  · rw [if_pos hne]
    exact iff_of_true hall (.inl hne)
  · rw [if_neg hne]
    exact (or_iff_right hne).symm

theorem Joinable.missed_eq :
    start.missed ports (requests ++ [.batch port b]) = start.missed ports requests := by
  ext key'
  rw [missed, missed, Finset.mem_filter, Finset.mem_filter, Request.batches_batch,
    Request.passes_batch]
  by_cases hne : key' = key
  · subst hne
    rw [hjoinable.passes_eq_false hkey]
    exact iff_of_false (fun h => Bool.false_ne_true h.2) (fun h => Bool.false_ne_true h.2)
  · rw [mem_incomplete_append_of_ne hkey hne]

/-- Whether the alignment waits already or not, its slots are those of the batches so far. -/
theorem Joinable.slots_eq {pending : SortedMap Alignment Slots}
    (h : pending.Tabulates (start.awaited ports requests)
      (start.slotsOf ports (Request.batches requests))) :
    (pending.get? key).getD (List.replicate ports none) =
      start.slotsOf ports (Request.batches requests) key := by
  by_cases hwaits : key ∈ start.awaited ports requests
  · rw [h.of_mem key hwaits, Option.getD_some]
  · -- an alignment that has a batch already would wait: it is incomplete, and in time
    have hnone : key ∉ keysOf start.alignment? (Request.batches requests) := by
      intro hmem
      apply hwaits
      rw [mem_awaited, incomplete, Finset.mem_filter]
      refine ⟨⟨hmem, ?_⟩, hjoinable.passes_eq_false hkey⟩
      exact not_all_slotsOf hjoinable.port_lt (hjoinable.part_eq_none hkey)
    rw [h.of_notMem key hwaits, Option.getD_none, slotsOf_eq_replicate hnone]

end Batch

/-- There is room for all alignments that wait. -/
theorem Joinable.card_awaited_le (h : start.Joinable ports requests) :
    (start.awaited ports requests).card ≤ start.horizon := by
  refine le_trans (Finset.card_le_card fun key hkey => ?_) h.room
  exact (Finset.mem_filter.1 (mem_awaited.1 hkey).1).1

/-- A batch completes its alignment, or its alignment waits for more. -/
theorem Joined.batch (h : Joined start start.aliases.length requests op out) {port : Nat}
    {b : Batch}
    (hjoinable : start.Joinable start.aliases.length (requests ++ [.batch port b])) :
    Joined start start.aliases.length (requests ++ [.batch port b]) (op.onBatch port b).1
      (out ++ (op.onBatch port b).2.toList) := by
  have hbatches := Request.batches_batch requests port b
  obtain ⟨key, hkey⟩ := Option.isSome_iff_exists.1 (hjoinable.aligned (port, b) (by
    rw [hbatches]
    exact List.mem_append_right _ List.mem_cons_self))
  have hnew := hjoinable.part_eq_none hkey
  have hbefore := not_all_slotsOf hjoinable.port_lt hnew
  have hmissed : op.dropped =
      (start.missed start.aliases.length (requests ++ [.batch port b])).card := by
    rw [hjoinable.missed_eq hkey]
    exact h.dropped
  have heq := onBatch_eq op.dropped hkey (hjoinable.slots_eq hkey h.pending)
    (slotsOf_append hkey hnew)
  rw [← h.config] at heq
  rw [heq]
  by_cases hall : start.Filled start.aliases.length (Request.batches requests ++ [(port, b)]) key
  · -- the last slot has been filled
    rw [if_pos (show List.all _ _ = true from hall)]
    refine ⟨rfl, ?_, hmissed, ?_⟩
    · rw [hjoinable.awaited_of_all hkey hall, hbatches]
      refine (h.pending.erase key).congr fun key' hkey' => ?_
      exact slotsOf_append_of_ne hkey (Finset.ne_of_mem_erase hkey')
    · rw [hbatches, joined_append_of_all hkey hall hbefore, ← h.out]
      exact Multiset.coe_eq_coe.2 (List.perm_append_singleton _ _)
  · have hpending : (op.pending.insert key (start.slotsOf start.aliases.length
        (Request.batches requests ++ [(port, b)]) key)).Tabulates
        (start.awaited start.aliases.length (requests ++ [.batch port b]))
        (start.slotsOf start.aliases.length (Request.batches requests ++ [(port, b)])) := by
      rw [hjoinable.awaited_of_not_all hkey hall]
      exact h.pending.insert fun key' _ hne => slotsOf_append_of_ne hkey hne
    have hroom := hpending.size_eq.trans_le hjoinable.card_awaited_le
    rw [if_neg (show ¬ List.all _ _ = true from hall), enforceHorizon_eq hroom]
    refine ⟨rfl, hbatches ▸ hpending, hmissed, ?_⟩
    rw [hbatches, joined_append_of_not_all hkey hall hbefore, ← h.out, Option.toList_none,
      List.append_nil]

/-! ## Whole runs -/

theorem Joinable.of_append {later : List Request} (h : start.Joinable ports (requests ++ later)) :
    start.Joinable ports requests := by
  have hbatches := Request.batches_append requests later
  refine ⟨?_, ?_, ?_, (List.pairwise_append.1 h.inTime).1, ?_⟩
  · intro e he
    exact h.known e (hbatches ▸ List.mem_append_left _ he)
  · intro e he
    exact h.aligned e (hbatches ▸ List.mem_append_left _ he)
  · intro port
    have hdistinct := h.distinct port
    rw [hbatches, Request.fromPort_append, List.filterMap_append] at hdistinct
    exact (List.nodup_append.1 hdistinct).1
  · refine le_trans (Finset.card_le_card ?_) h.room
    rw [hbatches]
    exact keysOf_subset_append _

theorem joined_new (hpending : start.pending = ∅) (hdropped : start.dropped = 0) :
    Joined start ports [] start [] := by
  refine ⟨rfl, ?_, hdropped, rfl⟩
  rw [hpending]
  exact SortedMap.tabulates_empty _

theorem joined_run (hpending : start.pending = ∅) (hdropped : start.dropped = 0)
    (hjoinable : start.Joinable start.aliases.length requests) (hclose : .close ∉ requests) :
    Joined start start.aliases.length requests (Request.run take start requests).1
      (Request.run take start requests).2 := by
  -- from the end, since what has become of the join is told by all requests so far
  induction requests using List.reverseRecOn with
  | nil => exact joined_new hpending hdropped
  | append_singleton requests c ih =>
    have hold := ih hjoinable.of_append fun hc => hclose (List.mem_append_left _ hc)
    rw [Request.run_concat]
    cases c with
    | batch port b => exact hold.batch hjoinable
    | watermark t =>
      rw [take, List.append_nil]
      exact hold.watermark t
    | close => exact absurd (List.mem_append_right _ List.mem_cons_self) hclose

end SeriesPipeline.Joining
