import Mathlib
import SeriesPipeline.Proofs.Joining.Completion
import SeriesPipeline.Proofs.Joining.Shape

/-!
# Bookkeeping of joins

A batch of an alignment that is not pending opens it. Each opening ends once: the alignment is put
out, is dropped, or is still pending. Whatever comes in whatever order, the slots of a pending
alignment are the latest batches since it was opened, and so are the parts of what is put out.
-/

namespace SeriesPipeline.Joining

variable {start op : Joining} {log : List (Nat × Batch)} {logs : Alignment → List (Nat × Batch)}
  {port ports : Nat} {b : Batch} {key : Alignment} {slots filled : Slots} {r : Request}
  {requests : List Request}

/-! ## Openings and deliveries -/

/-- The alignment that a request opens. -/
def opening? (op : Joining) (r : Request) : Option Alignment :=
  (r.batch?.bind fun e => op.alignment? e.2).filter fun key => !op.pending.contains key

/-- The alignments that a run opens, as often as it does. -/
def openings (op : Joining) : List Request → List Alignment
  | [] => []
  | r :: rest => (op.opening? r).toList ++ openings (op.take r).1 rest

/-- The batches for an alignment since it was opened, those of `log` and of one more request. -/
def extended (op : Joining) (key : Alignment) (log : List (Nat × Batch)) :
    Request → List (Nat × Batch)
  | .batch port b =>
    if op.alignment? b = some key then
      (if op.pending.contains key then log else []) ++ [(port, b)]
    else log
  | .watermark _ => log
  | .close => log

/-- The batches for an alignment since it was opened, those of `log` and of a run. -/
def delivered (op : Joining) (key : Alignment) (log : List (Nat × Batch)) :
    List Request → List (Nat × Batch)
  | [] => log
  | r :: rest => delivered (op.take r).1 key (op.extended key log r) rest

/-- The last batch of a port. -/
def latest (log : List (Nat × Batch)) (port : Nat) : Option Batch :=
  (Request.fromPort port log).getLast?

/-- The last batch of each port. -/
def latestSlots (ports : Nat) (log : List (Nat × Batch)) : Slots :=
  (List.range ports).map (latest log)

theorem latestSlots_nil (ports : Nat) : latestSlots ports [] = List.replicate ports none := by
  rw [List.eq_replicate_iff]
  refine ⟨by rw [latestSlots, List.length_map, List.length_range], fun slot hslot => ?_⟩
  obtain ⟨port, -, rfl⟩ := List.mem_map.1 hslot
  rfl

theorem latest_append (log : List (Nat × Batch)) (port : Nat) (b : Batch) (i : Nat) :
    latest (log ++ [(port, b)]) i = if i = port then some b else latest log i := by
  rw [latest, Request.fromPort_append, Request.fromPort_cons]
  by_cases h : i = port
  · rw [if_pos h, if_pos h.symm]
    exact List.getLast?_concat
  · rw [if_neg h, if_neg (Ne.symm h)]
    exact congrArg List.getLast? (List.append_nil _)

theorem latestSlots_append (ports : Nat) (log : List (Nat × Batch)) (port : Nat) (b : Batch) :
    latestSlots ports (log ++ [(port, b)]) = (latestSlots ports log).set port (some b) :=
  map_range_eq_set (latest_append log port b)

theorem length_latestSlots (ports : Nat) (log : List (Nat × Batch)) :
    (latestSlots ports log).length = ports := by
  rw [latestSlots, List.length_map, List.length_range]

/-! ## Balance -/

/-- The slots of an alignment after one more batch. -/
def slotsWith (op : Joining) (key : Alignment) (port : Nat) (b : Batch) : Slots :=
  ((op.pending.get? key).getD (List.replicate op.aliases.length none)).set port (some b)

theorem onBatch_of_alignment (hkey : op.alignment? b = some key) (port : Nat) :
    op.onBatch port b =
      if (op.slotsWith key port b).all (·.isSome) then
        ({ op with pending := op.pending.erase key },
          some (op.combine key (op.slotsWith key port b).reduceOption))
      else
        ({ op with pending := op.pending.insert key (op.slotsWith key port b) }.enforceHorizon,
          none) :=
  onBatch_eq op.dropped hkey rfl rfl

theorem onBatch_of_none (h : op.alignment? b = none) (port : Nat) :
    op.onBatch port b = (op, none) := by
  rw [onBatch, h]

theorem length_opening?_batch (hkey : op.alignment? b = some key) (port : Nat) :
    (op.opening? (.batch port b)).toList.length + (op.pending.contains key).toNat = 1 := by
  show ((op.alignment? b).filter fun key => !op.pending.contains key).toList.length + _ = _
  rw [hkey, Option.filter_some]
  cases op.pending.contains key <;> rfl

theorem balance_enforceHorizon (op : Joining) :
    op.enforceHorizon.dropped + op.enforceHorizon.pending.size = op.dropped + op.pending.size := by
  have hsize := op.pending.size_keepLast op.horizon
  show op.dropped + (op.pending.size - op.horizon) + (op.pending.keepLast op.horizon).size = _
  omega

theorem balance_onBatch (hkey : op.alignment? b = some key) (port : Nat) :
    op.dropped + op.pending.size + 1 =
      (op.onBatch port b).2.toList.length + (op.onBatch port b).1.dropped +
        (op.onBatch port b).1.pending.size + (op.pending.contains key).toNat := by
  rw [onBatch_of_alignment hkey]
  by_cases hall : (op.slotsWith key port b).all (·.isSome) = true
  · -- a pending alignment leaves, and one that has just been opened has not come in
    have hsize := op.pending.size_erase key
    rw [if_pos hall]
    show _ = 1 + op.dropped + (op.pending.erase key).size + _
    omega
  · have hsize := op.pending.size_insert key (op.slotsWith key port b)
    have hbalance := balance_enforceHorizon
      { op with pending := op.pending.insert key (op.slotsWith key port b) }
    rw [if_neg hall, Option.toList_none, List.length_nil]
    dsimp only at hbalance ⊢
    omega

/-- What is pending or newly opened is put out, dropped or pending after a request. -/
theorem balance_take (op : Joining) (r : Request) :
    (op.opening? r).toList.length + op.dropped + op.pending.size =
      (op.take r).2.length + (op.take r).1.dropped + (op.take r).1.pending.size := by
  cases r with
  | batch port b =>
    cases hkey : op.alignment? b with
    | none =>
      have hnone : op.opening? (.batch port b) = none := by
        show (op.alignment? b).filter _ = none
        rw [hkey, Option.filter_none]
      rw [hnone, take, onBatch_of_none hkey]
      rfl
    | some key =>
      have hopening := length_opening?_batch hkey port
      have hbalance := balance_onBatch hkey port
      rw [take]
      dsimp only
      omega
  | watermark t =>
    have hle := op.pending.size_filter_le fun key _ => decide (t < key.window.stop)
    show 0 + op.dropped + op.pending.size =
      0 + (op.dropped + (op.pending.size - (op.onWatermark t).pending.size)) +
        (op.onWatermark t).pending.size
    rw [onWatermark]
    dsimp only
    omega
  | close =>
    show 0 + op.dropped + op.pending.size = 0 + (op.dropped + op.pending.size) + 0
    omega

/-- Over a run each opening ends once. -/
theorem balance_run (op : Joining) (requests : List Request) :
    (op.openings requests).length + op.dropped + op.pending.size =
      (Request.run take op requests).2.length + (Request.run take op requests).1.dropped +
        (Request.run take op requests).1.pending.size := by
  -- what the first request leaves dropped and pending is where the rest begins
  induction requests generalizing op with
  | nil => rfl
  | cons r rest ih =>
    have hfirst := balance_take op r
    have hrest := ih (op.take r).1
    rw [openings, Request.run_cons, List.length_append, List.length_append]
    dsimp only
    omega

/-! ## Pending alignments -/

/-- The latest batches of some ports and not of all. -/
structure PartlyFilled (ports : Nat) (log : List (Nat × Batch)) (slots : Slots) : Prop where
  latest : slots = latestSlots ports log
  filled : 0 < slots.countP (·.isSome)
  unfilled : slots.countP (·.isSome) < ports

/-- A join set up like `start` has room for what is pending, and a pending alignment has some of the
batches that it takes, the latest since it was opened. -/
structure Keeps (start op : Joining) (logs : Alignment → List (Nat × Batch)) : Prop where
  config : op = { start with pending := op.pending, dropped := op.dropped }
  room : op.pending.size ≤ start.horizon
  pending : ∀ key slots, op.pending.get? key = some slots →
    PartlyFilled start.aliases.length (logs key) slots

theorem keeps_new (hpending : start.pending = ∅) : Keeps start start fun _ => [] := by
  refine ⟨rfl, hpending ▸ Nat.zero_le _, fun key slots hget => ?_⟩
  rw [hpending] at hget
  cases hget

namespace Keeps

theorem alignment?_eq (h : Keeps start op logs) : op.alignment? = start.alignment? := by
  rw [h.config]
  rfl

theorem aliases_eq (h : Keeps start op logs) : op.aliases = start.aliases := by
  rw [h.config]

theorem horizon_eq (h : Keeps start op logs) : op.horizon = start.horizon := by
  rw [h.config]

theorem slotsWith_eq (h : Keeps start op logs) (hkey : op.alignment? b = some key) (port : Nat) :
    op.slotsWith key port b =
      latestSlots start.aliases.length (op.extended key (logs key) (.batch port b)) := by
  rw [extended, if_pos hkey, latestSlots_append, slotsWith, h.aliases_eq, SortedMap.contains]
  cases hget : op.pending.get? key with
  | none => rw [Option.getD_none, Option.isSome_none, if_neg Bool.false_ne_true, latestSlots_nil]
  | some slots =>
    rw [Option.getD_some, Option.isSome_some, if_pos rfl, (h.pending key slots hget).latest]

/-- What is left of the pending alignments is as before, when the request has no batch for it. -/
theorem of_subset (h : Keeps start op logs) {op' : Joining}
    (hconfig : op' = { op with pending := op'.pending, dropped := op'.dropped })
    (hsize : op'.pending.size ≤ op.pending.size)
    (hget : ∀ key slots, op'.pending.get? key = some slots →
      op.pending.get? key = some slots ∧ op.extended key (logs key) r = logs key) :
    Keeps start op' fun key => op.extended key (logs key) r := by
  refine ⟨?_, hsize.trans h.room, fun key slots hslots => ?_⟩
  · rw [hconfig, h.config]
  · obtain ⟨hbefore, hlog⟩ := hget key slots hslots
    rw [hlog]
    exact h.pending key slots hbefore

theorem extended_of_ne (hkey : op.alignment? b = some key) {key' : Alignment} (hne : key' ≠ key)
    (log : List (Nat × Batch)) (port : Nat) : op.extended key' log (.batch port b) = log := by
  rw [extended, hkey, if_neg fun heq => hne (Option.some.inj heq).symm]

/-- A batch that does not complete its alignment has a slot, and some other slot is empty. -/
theorem partlyFilled_slotsWith (h : Keeps start op logs) (hport : port < start.aliases.length)
    (hkey : op.alignment? b = some key)
    (hopen : ¬ (op.slotsWith key port b).all (·.isSome) = true) :
    PartlyFilled start.aliases.length (op.extended key (logs key) (.batch port b))
      (op.slotsWith key port b) := by
  have hlatest := h.slotsWith_eq hkey port
  have hlength : (op.slotsWith key port b).length = start.aliases.length := by
    rw [hlatest, length_latestSlots]
  refine ⟨hlatest, List.countP_pos_iff.2 ⟨some b, ?_, rfl⟩, ?_⟩
  · rw [slotsWith, List.mem_iff_getElem]
    have hlt : port < (op.slotsWith key port b).length := hlength ▸ hport
    exact ⟨port, hlt, List.getElem_set_self _⟩
  · rw [← hlength]
    refine lt_of_le_of_ne List.countP_le_length fun hcount => hopen ?_
    exact List.all_eq_true.2 (List.countP_eq_length.1 hcount)

/-- A batch that does not complete its alignment leaves it pending, unless it is among the smallest
and beyond the horizon. -/
theorem insert (h : Keeps start op logs) (hport : port < start.aliases.length)
    (hkey : op.alignment? b = some key)
    (hopen : ¬ (op.slotsWith key port b).all (·.isSome) = true) :
    Keeps start
      ({ op with pending := op.pending.insert key (op.slotsWith key port b) }.enforceHorizon)
      fun key' => op.extended key' (logs key') (.batch port b) := by
  refine ⟨?_, ?_, fun key' slots hslots => ?_⟩
  · rw [enforceHorizon, h.config]
  · rw [← h.horizon_eq]
    exact (SortedMap.size_keepLast _ _).trans_le (Nat.min_le_right _ _)
  · have hget := SortedMap.get?_of_get?_keepLast hslots
    rw [SortedMap.get?_insert] at hget
    by_cases hkey' : key' = key
    · rw [if_pos hkey'] at hget
      rw [hkey', ← Option.some.inj hget]
      exact h.partlyFilled_slotsWith hport hkey hopen
    · rw [if_neg hkey'] at hget
      rw [extended_of_ne hkey hkey']
      exact h.pending key' slots hget

theorem take (h : Keeps start op logs) (hr : ∀ e ∈ r.batch?, e.1 < start.aliases.length) :
    Keeps start (op.take r).1 fun key => op.extended key (logs key) r := by
  cases r with
  | batch port b =>
    rw [Joining.take]
    cases hkey : op.alignment? b with
    | none =>
      rw [onBatch_of_none hkey]
      refine h.of_subset rfl (le_refl _) fun key slots hslots => ⟨hslots, ?_⟩
      rw [extended, hkey, if_neg (Option.some_ne_none _).symm]
    | some key =>
      rw [onBatch_of_alignment hkey]
      split
      · -- the completed alignment is not pending any more, and the others had no batch
        refine h.of_subset rfl (SortedMap.size_filter_le _ _) fun key' slots hslots => ?_
        rw [SortedMap.get?_erase] at hslots
        split at hslots
        · cases hslots
        · rename_i hne
          exact ⟨hslots, extended_of_ne hkey hne _ _⟩
      · rename_i hopen
        exact h.insert (hr (port, b) rfl) hkey hopen
  | watermark t =>
    refine h.of_subset rfl (SortedMap.size_filter_le _ _) fun key slots hslots => ⟨?_, rfl⟩
    rw [Joining.take, onWatermark, SortedMap.get?_filter, Option.filter_eq_some_iff] at hslots
    exact hslots.1
  | close =>
    refine h.of_subset rfl (Nat.zero_le _) fun key slots hslots => ?_
    exact absurd hslots (Option.some_ne_none _).symm

theorem run (h : Keeps start op logs)
    (hrequests : ∀ e ∈ Request.batches requests, e.1 < start.aliases.length) :
    Keeps start (Request.run Joining.take op requests).1
      fun key => op.delivered key (logs key) requests := by
  induction requests generalizing op logs with
  | nil => exact h
  | cons r rest ih =>
    obtain ⟨hr, hrest⟩ := Request.forall_mem_batches_cons.1 hrequests
    exact ih (h.take hr) hrest

end Keeps

/-! ## One more batch -/

theorem map_some_reduceOption (h : slots.all (·.isSome) = true) :
    slots.reduceOption.map some = slots := by
  induction slots with
  | nil => rfl
  | cons slot rest ih =>
    rw [List.all_cons, Bool.and_eq_true] at h
    cases slot with
    | none => cases h.1
    | some b => rw [List.reduceOption_cons_of_some, List.map_cons, ih h.2]

/-- What is put out has the latest batch of every port, in order of the ports. -/
theorem Keeps.combines (h : Keeps start op logs) (hkey : op.alignment? b = some key)
    {joined : Batch} (hjoined : joined ∈ (op.onBatch port b).2) :
    ∃ parts, latestSlots start.aliases.length (op.extended key (logs key) (.batch port b)) =
        parts.map some ∧
      joined = start.combine key parts ∧
      (start.aliases ≠ [] → start.SideBySide key parts joined) := by
  rw [onBatch_of_alignment hkey] at hjoined
  by_cases hall : (op.slotsWith key port b).all (·.isSome) = true
  · rw [if_pos hall, Option.mem_some_iff] at hjoined
    have hparts : latestSlots start.aliases.length (op.extended key (logs key) (.batch port b)) =
        (op.slotsWith key port b).reduceOption.map some := by
      rw [map_some_reduceOption hall, h.slotsWith_eq hkey]
    obtain rfl : start.combine key (op.slotsWith key port b).reduceOption = joined := by
      rw [← hjoined, h.config]
      rfl
    refine ⟨_, hparts, rfl, fun haliases => sideBySide_combine start key ?_⟩
    -- there is a part for every alias
    have hlength := congrArg List.length hparts
    rw [length_latestSlots, List.length_map] at hlength
    exact List.ne_nil_of_length_pos (hlength ▸ List.length_pos_of_ne_nil haliases)
  · rw [if_neg hall] at hjoined
    cases hjoined

/-- When nothing is put out, the slots are filled in, and the smallest alignments beyond the horizon
are dropped. -/
theorem Keeps.evicts (h : Keeps start op logs) (hkey : op.alignment? b = some key)
    (hnone : (op.onBatch port b).2 = none) :
    let filled := latestSlots start.aliases.length (op.extended key (logs key) (.batch port b))
    ∃ low, (op.pending.insert key filled).entries =
        low ++ (op.onBatch port b).1.pending.entries ∧
      (∀ e ∈ low, ∀ kept ∈ (op.onBatch port b).1.pending.entries, compare e.1 kept.1 = .lt) ∧
      (op.onBatch port b).1.dropped = op.dropped + low.length ∧
      low.length = (op.pending.insert key filled).size - start.horizon := by
  intro filled
  have hfilled : op.slotsWith key port b = filled := h.slotsWith_eq hkey port
  rw [onBatch_of_alignment hkey, hfilled] at hnone ⊢
  by_cases hall : filled.all (·.isSome) = true
  · rw [if_pos hall] at hnone
    cases hnone
  · rw [if_neg hall]
    have hentries := (op.pending.insert key filled).entries_eq_append_keepLast op.horizon
    have hsorted := (op.pending.insert key filled).sorted
    have hlength : ((op.pending.insert key filled).entries.take
        ((op.pending.insert key filled).size - op.horizon)).length =
        (op.pending.insert key filled).size - op.horizon := by
      rw [List.length_take]
      exact Nat.min_eq_left (Nat.sub_le _ _)
    refine ⟨_, hentries, ?_, ?_, ?_⟩
    · rw [hentries] at hsorted
      exact (List.pairwise_append.1 hsorted).2.2
    · rw [hlength]
      rfl
    · rw [hlength, h.horizon_eq]

/-! ## Whole runs -/

/-- After any run no more alignments are pending than the horizon allows, each with the latest
batches since it was opened in some of its slots, and each opening is accounted for. One more batch
puts out the latest batches of all ports side by side, or drops the smallest alignments beyond the
horizon. -/
theorem openings_balance (aliases on : List String) (rename : Tags) (name : Option String)
    (horizon : Nat) (requests : List Request)
    (hports : ∀ e ∈ Request.batches requests, e.1 < aliases.length) :
    let start : Joining := ⟨aliases, on, rename, name, horizon, ∅, 0⟩
    let op := (Request.run take start requests).1
    let out := (Request.run take start requests).2
    let since := fun key => start.delivered key [] requests
    op.pending.size ≤ horizon ∧
    (∀ key slots, op.pending.get? key = some slots →
      slots = latestSlots aliases.length (since key) ∧
      0 < slots.countP (·.isSome) ∧ slots.countP (·.isSome) < aliases.length) ∧
    (start.openings requests).length = out.length + op.dropped + op.pending.size ∧
    (∀ port b key, start.alignment? b = some key →
      let filled := latestSlots aliases.length (op.extended key (since key) (.batch port b))
      let done := op.onBatch port b
      (∀ joined ∈ done.2, ∃ parts, filled = parts.map some ∧ joined = start.combine key parts ∧
        (aliases ≠ [] → start.SideBySide key parts joined)) ∧
      (done.2 = none → ∃ low,
        (op.pending.insert key filled).entries = low ++ done.1.pending.entries ∧
        (∀ e ∈ low, ∀ kept ∈ done.1.pending.entries, compare e.1 kept.1 = .lt) ∧
        done.1.dropped = op.dropped + low.length ∧
        low.length = (op.pending.insert key filled).size - horizon)) ∧
    op.onClose.pending = ∅ := by
  intro start op out since
  have hkeeps : Keeps start op since := (keeps_new rfl).run hports
  have hbalance := balance_run start requests
  refine ⟨hkeeps.room, fun key slots hslots => ?_, hbalance, fun port b key hkey => ?_, rfl⟩
  · obtain ⟨hlatest, hfilled, hunfilled⟩ := hkeeps.pending key slots hslots
    exact ⟨hlatest, hfilled, hunfilled⟩
  · rw [← hkeeps.alignment?_eq] at hkey
    exact ⟨fun joined hjoined => hkeeps.combines hkey hjoined, hkeeps.evicts hkey⟩

/-- A batch of one row, at the start of a window. -/
def partAt (start stop : Instant) (v : Int64) : Batch :=
  ⟨"m", ∅, ["v"], [⟨start, [.int v]⟩], some ⟨start, stop⟩⟩

/-- A join of two ports with room for one alignment. The first port delivers twice for a later
window and then for an earlier one, which is dropped. A batch of the second port is joined with the
second batch of the first port. -/
theorem openings_balance_replaced :
    let start : Joining := ⟨["a", "b"], [], ∅, none, 1, ∅, 0⟩
    let requests : List Request :=
      [.batch 0 (partAt ⟨10⟩ ⟨20⟩ 1), .batch 0 (partAt ⟨10⟩ ⟨20⟩ 2), .batch 0 (partAt ⟨0⟩ ⟨10⟩ 3)]
    let op := (Request.run take start requests).1
    op.dropped = 1 ∧ op.pending.size = 1 ∧ (start.openings requests).length = 2 ∧
      (op.onBatch 1 (partAt ⟨10⟩ ⟨20⟩ 4)).2 = some (start.combine ⟨⟨⟨10⟩, ⟨20⟩⟩, ∅⟩
        [partAt ⟨10⟩ ⟨20⟩ 2, partAt ⟨10⟩ ⟨20⟩ 4]) := by
  intro start requests op
  obtain ⟨-, -, hbalance, hbatch, -⟩ := openings_balance ["a", "b"] [] ∅ none 1 requests (by decide)
  have hdropped : op.dropped = 1 := by decide +kernel
  have hsize : op.pending.size = 1 := by decide +kernel
  have hout : (Request.run take start requests).2.length = 0 := by decide +kernel
  have hfilled : latestSlots 2 (op.extended ⟨⟨⟨10⟩, ⟨20⟩⟩, ∅⟩
      (start.delivered ⟨⟨⟨10⟩, ⟨20⟩⟩, ∅⟩ [] requests) (.batch 1 (partAt ⟨10⟩ ⟨20⟩ 4))) =
      [partAt ⟨10⟩ ⟨20⟩ 2, partAt ⟨10⟩ ⟨20⟩ 4].map some := by
    simp only [op, start, requests]
    cbv
  have hsome : (op.onBatch 1 (partAt ⟨10⟩ ⟨20⟩ 4)).2.isSome = true := by decide +kernel
  obtain ⟨joined, hjoined⟩ := Option.isSome_iff_exists.1 hsome
  have hkey : start.alignment? (partAt ⟨10⟩ ⟨20⟩ 4) = some ⟨⟨⟨10⟩, ⟨20⟩⟩, ∅⟩ := rfl
  obtain ⟨parts, hparts, rfl, -⟩ := (hbatch 1 (partAt ⟨10⟩ ⟨20⟩ 4) _ hkey).1 joined hjoined
  have hlatest : [partAt ⟨10⟩ ⟨20⟩ 2, partAt ⟨10⟩ ⟨20⟩ 4] = parts :=
    List.map_injective_iff.2 (Option.some_injective _) (hfilled.symm.trans hparts)
  have hop : (Request.run take ⟨["a", "b"], [], ∅, none, 1, ∅, 0⟩ requests).1 = op := rfl
  rw [hop, hdropped, hsize, hout] at hbalance
  exact ⟨hdropped, hsize, hbalance, hlatest ▸ hjoined⟩

end SeriesPipeline.Joining
