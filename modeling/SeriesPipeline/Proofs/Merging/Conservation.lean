import Mathlib.Data.List.Perm.Basic
import SeriesPipeline.Proofs.Merging.Parts
import SeriesPipeline.Proofs.Merging.Windows

/-!
# Rows of unions

A union merges what has come for an alignment in rounds: whenever a watermark passes its window, and
at the end of the input. A late batch only comes into a later round. So each batch delivered is in
one round, and each of its rows is in one merged batch.
-/

namespace SeriesPipeline.Merging

/-- Some parts of an alignment, to be merged together. -/
structure Round (key : Alignment) (parts : Parts) : Prop where
  nonempty : parts ≠ []
  aligned : ∀ p ∈ parts, alignment? p.2 = some key
  consistent : ∀ p ∈ parts, p.2.Consistent

/-- The batch stands for the parts: it has their window and tags, and their rows in order of time.
Rows of one time come in order of the ports, and those of one port as the parts do. -/
structure StandsFor (b : Batch) (key : Alignment) (parts : Parts) : Prop where
  nonempty : parts ≠ []
  aligned : ∀ p ∈ parts, alignment? p.2 = some key
  window : b.window = some key.window
  tags : b.tags = key.tags
  rows : ∃ sorted, StablyOrdered Prod.fst parts sorted ∧
    b.HoldsInOrder (sorted.flatMap (·.2.entries))

/-- Of the batches delivered so far, those in the rounds have been merged, and the rest is pending.
-/
structure Spent (start : Merging) (log : List (Nat × Batch)) (rounds : List (Alignment × Parts))
    (op : Merging) (out : List Batch) : Prop where
  config : op = { start with pending := op.pending }
  pending : op.pending.All Round
  ended : ∀ e ∈ rounds, Round e.1 e.2
  arrivals : ∀ key, partsOf (rounds.flatMap (·.2)) key ++ (op.pending.get? key).getD [] =
    partsOf log key
  out : out = rounds.map fun e => start.merge e.1 e.2

/-- Rows with the batches that they are in. -/
def rowsOf (batches : List Batch) : List (Batch × Row) := batches.flatMap fun b => b.rows.map (b, ·)

/-- A row is emitted as another: under the alignment of its batch and at its time, with its values
under its own columns and null under the others. -/
structure Carried (own emitted : Batch × Row) : Prop where
  window : emitted.1.window = own.1.alignmentWindow
  tags : emitted.1.tags = own.1.tags
  shows : Shows emitted.1.columns ⟨own.1.columns, own.2⟩ emitted.2

variable {start op : Merging} {requests : List Request} {rounds : List (Alignment × Parts)}
  {out : List Batch} {log log' : List (Nat × Batch)} {key : Alignment} {parts : Parts} {b : Batch}
  {r : Request}

/-! ## One round -/

theorem Round.standsFor_merge (h : Round key parts) (op : Merging) :
    StandsFor (op.merge key parts) key parts := by
  have hsorted := stablyOrdered_mergeSort (Prod.fst : Nat × Batch → Nat) parts
  set sorted := parts.mergeSort fun p q => decide (p.1 ≤ q.1)
  have hmerge : op.merge key parts = op.merge key sorted := by
    apply merge_congr
    intro port
    rw [Request.fromPort, Request.fromPort, hsorted.stable]
  refine ⟨h.nonempty, h.aligned, window_merge, tags_merge, sorted, hsorted, ?_⟩
  rw [hmerge]
  exact holdsInOrder_merge (fun p hp => h.consistent p (hsorted.perm.mem_iff.1 hp)) hsorted.ordered

theorem Round.concat {port : Nat} (hparts : parts ≠ [] → Round key parts)
    (hkey : alignment? b = some key) (hb : b.Consistent) : Round key (parts ++ [(port, b)]) := by
  have hold : ∀ p ∈ parts, alignment? p.2 = some key ∧ p.2.Consistent := fun p hp =>
    have hround := hparts (List.ne_nil_of_mem hp)
    ⟨hround.aligned p hp, hround.consistent p hp⟩
  refine ⟨List.concat_ne_nil _ _, ?_, ?_⟩
  · exact List.forall_mem_append.2
      ⟨fun p hp => (hold p hp).1, List.forall_mem_singleton.2 hkey⟩
  · exact List.forall_mem_append.2
      ⟨fun p hp => (hold p hp).2, List.forall_mem_singleton.2 hb⟩

/-! ## What each alignment got -/

theorem partsOf_append_log (log later : List (Nat × Batch)) (key : Alignment) :
    partsOf (log ++ later) key = partsOf log key ++ partsOf later key :=
  List.filter_append _ _

/-- Of all that is pending, an alignment gets what is pending for it. -/
theorem partsOf_pending {pending : SortedMap Alignment Parts} (h : pending.All Round)
    (key : Alignment) :
    partsOf (pending.toList.flatMap (·.2)) key = (pending.get? key).getD [] := by
  have hother : ∀ e ∈ pending.entries, e.1 ≠ key → partsOf e.2 key = [] := by
    intro e he hne
    rw [partsOf, List.filter_eq_nil_iff]
    intro p hp hkey
    rw [decide_eq_true_eq, (h e he).aligned p hp, Option.some.injEq] at hkey
    exact hne hkey
  rw [SortedMap.toList, partsOf, List.filter_flatMap]
  refine (SortedMap.flatMap_entries pending key (fun e => partsOf e.2 key) hother).trans ?_
  cases hget : pending.get? key with
  | none => rfl
  | some parts =>
    refine List.filter_eq_self.2 fun p hp => ?_
    exact decide_eq_true ((h.of_get? hget).aligned p hp)

/-- Batches with alignments are the same but for their order if each alignment has the same ones. -/
theorem perm_of_partsOf_eq (hlog : ∀ e ∈ log, (alignment? e.2).isSome)
    (hlog' : ∀ e ∈ log', (alignment? e.2).isSome) (h : ∀ key, partsOf log key = partsOf log' key) :
    log.Perm log' := by
  classical
  rw [List.perm_iff_count]
  intro e
  cases hkey : alignment? e.2 with
  | none =>
    have hnot : ∀ log : List (Nat × Batch), (∀ e ∈ log, (alignment? e.2).isSome) → e ∉ log := by
      intro log hlog he
      have hsome := hlog e he
      rw [hkey] at hsome
      cases hsome
    rw [List.count_eq_zero.2 (hnot log hlog), List.count_eq_zero.2 (hnot log' hlog')]
  | some key =>
    have hcount := congrArg (List.count e) (h key)
    rwa [partsOf, partsOf, List.count_filter (by exact decide_eq_true hkey),
      List.count_filter (by exact decide_eq_true hkey)] at hcount

/-! ## One request -/

namespace Spent

variable (h : Spent start log rounds op out)
include h

theorem batch (port : Nat) (hkey : alignment? b = some key) (hb : b.Consistent) :
    Spent start (log ++ [(port, b)]) rounds (op.onBatch port b) out := by
  rw [onBatch_eq op port hkey]
  set old := (op.pending.get? key).getD [] with hold
  have hround : old ≠ [] → Round key old := by
    rw [hold]
    cases hget : op.pending.get? key with
    | none => exact fun hne => absurd rfl hne
    | some parts => exact fun _ => h.pending.of_get? hget
  refine ⟨by rw [h.config], h.pending.insert (Round.concat hround hkey hb), h.ended, ?_, h.out⟩
  intro key'
  rw [SortedMap.get?_insert]
  by_cases hne : key' = key
  · rw [if_pos hne, hne, Option.getD_some, partsOf_append hkey, ← h.arrivals key, List.append_assoc]
  · rw [if_neg hne, h.arrivals key', partsOf_append_of_ne hkey hne]

/-- Merging what is ready makes rounds of it. -/
theorem flush (ready : Alignment → Bool) :
    Spent start log (rounds ++ (op.pending.filter fun key _ => ready key).toList)
      { op with pending := op.pending.filter fun key _ => !ready key }
      (out ++ op.mergeAll (op.pending.filter fun key _ => ready key)) := by
  have hready : (op.pending.filter fun key _ => ready key).All Round := h.pending.filter _
  refine ⟨?_, h.pending.filter _, List.forall_mem_append.2 ⟨h.ended, hready⟩, ?_, ?_⟩
  · rw [h.config]
  · intro key
    rw [List.flatMap_append, partsOf_append_log, partsOf_pending hready, List.append_assoc,
      ← h.arrivals key, SortedMap.get?_filter, SortedMap.get?_filter]
    -- what is pending for the alignment is either ready or stays
    cases op.pending.get? key with
    | none => rfl
    | some parts => cases ready key <;> simp [Option.filter]
  · rw [List.map_append, ← h.out, mergeAll, h.config]
    rfl

theorem close :
    Spent start log (rounds ++ op.pending.toList) op.onClose.1 (out ++ op.onClose.2) := by
  have hall : op.pending.filter (fun _ _ => true) = op.pending :=
    SortedMap.ext_entries (List.filter_true _)
  have hnone : op.pending.filter (fun _ _ => !true) = ∅ :=
    SortedMap.ext_entries (List.filter_false _)
  have hdone := h.flush fun _ => true
  rwa [hall, hnone] at hdone

/-- A request ends some rounds. -/
theorem take (hr : ∀ e ∈ r.batch?, (alignment? e.2).isSome ∧ e.2.Consistent) :
    ∃ more, Spent start (log ++ r.batch?.toList) (rounds ++ more) (op.take r).1
      (out ++ (op.take r).2) := by
  cases r with
  | batch port b =>
    obtain ⟨hsome, hb⟩ := hr (port, b) rfl
    obtain ⟨key, hkey⟩ := Option.isSome_iff_exists.1 hsome
    refine ⟨[], ?_⟩
    rw [List.append_nil, Merging.take, List.append_nil]
    exact h.batch port hkey hb
  | watermark t =>
    have hlog : log ++ (Request.watermark t).batch?.toList = log := List.append_nil log
    have hdone := h.flush fun key => decide (key.window.stop ≤ t)
    exact ⟨_, hlog ▸ hdone⟩
  | close =>
    have hlog : log ++ Request.close.batch?.toList = log := List.append_nil log
    exact ⟨_, hlog ▸ h.close⟩

end Spent

/-! ## Whole runs -/

theorem spent_new (hpending : start.pending = ∅) : Spent start [] [] start [] := by
  refine ⟨rfl, ?_, nofun, fun key => ?_, rfl⟩
  · rw [hpending]
    exact SortedMap.all_empty
  · rw [hpending]
    rfl

theorem spent_run (start : Merging) (hpending : start.pending = ∅) (requests : List Request)
    (hbatches : ∀ e ∈ Request.batches requests, (alignment? e.2).isSome ∧ e.2.Consistent) :
    ∃ rounds, Spent start (Request.batches requests) rounds (Request.run take start requests).1
      (Request.run take start requests).2 := by
  -- from the end, since the rounds so far are made of all the batches so far
  induction requests using List.reverseRecOn with
  | nil => exact ⟨[], spent_new hpending⟩
  | append_singleton requests r ih =>
    rw [Request.batches_concat] at hbatches ⊢
    obtain ⟨hold, hr⟩ := List.forall_mem_append.1 hbatches
    obtain ⟨rounds, hspent⟩ := ih hold
    obtain ⟨more, hmore⟩ := hspent.take fun e he => hr e (Option.mem_toList.2 he)
    rw [Request.run_concat]
    exact ⟨rounds ++ more, hmore⟩

/-! ## Rows -/

/-- Under any alignment, the rows of a batch are those of the parts that it stands for. -/
theorem StandsFor.carries (h : StandsFor b key parts) : ∃ rows,
    rows.Perm (rowsOf (parts.map (·.2))) ∧ List.Forall₂ Carried rows (rowsOf [b]) := by
  obtain ⟨sorted, hsorted, entries, hentries, hholds⟩ := h.rows
  let entry (row : Batch × Row) : Entry := ⟨row.1.columns, row.2⟩
  have hrows : sorted.flatMap (·.2.entries) = (rowsOf (sorted.map (·.2))).map entry := by
    rw [rowsOf, List.flatMap_map, List.map_flatMap]
    refine List.flatMap_congr fun p _ => ?_
    rw [List.map_map]
    rfl
  -- the rows of the parts, in the order in which the batch has them
  have hself : List.Forall₂ (fun e row => e = entry row) (sorted.flatMap (·.2.entries))
      (rowsOf (sorted.map (·.2))) := by
    rw [hrows, ← List.forall₂_map_right_iff, List.forall₂_eq_eq_eq]
  obtain ⟨rows, hentry, hperm⟩ := List.perm_comp_forall₂ hentries.perm hself
  rw [← List.forall₂_map_right_iff, List.forall₂_eq_eq_eq] at hentry
  have hparts : rows.Perm (rowsOf (parts.map (·.2))) :=
    hperm.trans ((hsorted.perm.map _).flatMap_right _)
  have hown : ∀ row ∈ rows, b.window = row.1.alignmentWindow ∧ b.tags = row.1.tags := by
    intro row hrow
    obtain ⟨own, hown, hrow⟩ := List.mem_flatMap.1 (hparts.mem_iff.1 hrow)
    obtain ⟨p, hp, rfl⟩ := List.mem_map.1 hown
    obtain ⟨r, -, rfl⟩ := List.mem_map.1 hrow
    obtain ⟨w, hw, hkey⟩ := Option.map_eq_some_iff.1 (h.aligned p hp)
    rw [h.window, h.tags, ← hkey]
    exact ⟨hw.symm, rfl⟩
  have hshows := hholds.rows
  rw [hentry, List.forall₂_map_left_iff] at hshows
  refine ⟨rows, hparts, ?_⟩
  rw [rowsOf, List.flatMap_singleton, List.forall₂_map_right_iff]
  have hboth := (List.forall₂_and_left _ _).2 ⟨hown, hshows⟩
  exact hboth.imp fun _ _ hrow => ⟨hrow.1.1, hrow.1.2, hrow.2⟩

/-- The rows of batches are those of all the rounds that they stand for. -/
theorem carries_of_forall₂ (h : List.Forall₂ (fun b e => StandsFor b e.1 e.2) out rounds) :
    ∃ rows, rows.Perm (rowsOf ((rounds.flatMap (·.2)).map (·.2))) ∧
      List.Forall₂ Carried rows (rowsOf out) := by
  induction h with
  | nil => exact ⟨[], .nil, .nil⟩
  | @cons b e out rounds hfirst hrest ih =>
    obtain ⟨rows, hperm, hcarried⟩ := hfirst.carries
    obtain ⟨later, hlater, hcarriedLater⟩ := ih
    refine ⟨rows ++ later, ?_, ?_⟩
    · rw [List.flatMap_cons, List.map_append, rowsOf, List.flatMap_append]
      exact hperm.append hlater
    · rw [rowsOf, List.flatMap_singleton] at hcarried
      exact List.rel_append hcarried hcarriedLater

/-- Whatever comes and however late, once the input has ended each batch has gone into one merged
batch, with the parts of each alignment in order of arrival. So each row delivered has been emitted
once, under the alignment of its batch, and nothing else has. -/
theorem run_conserves_rows (name : Option String) (requests : List Request)
    (hbatches : ∀ e ∈ Request.batches requests, e.2.checkConsistency = .ok () ∧ e.2.rows ≠ []) :
    let delivered := Request.batches requests
    let result := Request.run take ⟨name, ∅⟩ (requests ++ [.close])
    result.1.pending = ∅ ∧
    (∃ rounds : List (Alignment × Parts),
      List.Forall₂ (fun b e => StandsFor b e.1 e.2) result.2 rounds ∧
      (rounds.flatMap (·.2)).Perm delivered ∧
      ∀ key, partsOf (rounds.flatMap (·.2)) key = partsOf delivered key) ∧
    ∃ rows, rows.Perm (rowsOf (delivered.map (·.2))) ∧
      List.Forall₂ Carried rows (rowsOf result.2) := by
  intro delivered result
  have hdelivered : Request.batches (requests ++ [.close]) = delivered :=
    (Request.batches_concat requests .close).trans (List.append_nil _)
  have haligned : ∀ e ∈ delivered, (alignment? e.2).isSome ∧ e.2.Consistent := by
    intro e he
    obtain ⟨hconsistent, hrows⟩ := hbatches e he
    rw [alignment?, Option.isSome_map]
    exact ⟨Request.alignmentWindow_isSome hrows, Batch.checkConsistency_eq_ok_iff.1 hconsistent⟩
  obtain ⟨rounds, hspent⟩ := spent_run ⟨name, ∅⟩ rfl (requests ++ [.close]) (by rwa [hdelivered])
  rw [hdelivered] at hspent
  have hpending : result.1.pending = ∅ := by
    simp only [result, Request.run_concat]
    rfl
  have hstands : List.Forall₂ (fun b e => StandsFor b e.1 e.2) result.2 rounds := by
    have hout : result.2 = _ := hspent.out
    rw [hout, List.forall₂_map_left_iff]
    exact List.forall₂_same.2 fun e he => (hspent.ended e he).standsFor_merge _
  have harrivals : ∀ key, partsOf (rounds.flatMap (·.2)) key = partsOf delivered key := by
    intro key
    have hkey := hspent.arrivals key
    rw [show (Request.run take _ _).1.pending = ∅ from hpending] at hkey
    exact (List.append_nil _).symm.trans hkey
  have hperm : (rounds.flatMap (·.2)).Perm delivered := by
    refine perm_of_partsOf_eq (fun p hp => ?_) (fun e he => (haligned e he).1) harrivals
    obtain ⟨e, he, hp⟩ := List.mem_flatMap.1 hp
    rw [(hspent.ended e he).aligned p hp]
    rfl
  obtain ⟨rows, hrows, hcarried⟩ := carries_of_forall₂ hstands
  refine ⟨hpending, ⟨rounds, hstands, hperm, harrivals⟩, rows, hrows.trans ?_, hcarried⟩
  exact (hperm.map _).flatMap_right _

/-- The second batch comes after the window of both has been merged, and is merged on its own. -/
theorem run_conserves_rows_late :
    let first : Batch := ⟨"m", ∅, ["a"], [⟨⟨5⟩, [.null]⟩], some ⟨⟨0⟩, ⟨10⟩⟩⟩
    let late : Batch := ⟨"m", ∅, ["b"], [⟨⟨4⟩, [.bool true]⟩], some ⟨⟨0⟩, ⟨10⟩⟩⟩
    let requests : List Request := [.batch 1 first, .watermark ⟨10⟩, .batch 0 late]
    let result := Request.run take ⟨none, ∅⟩ (requests ++ [.close])
    result.1.pending = ∅ ∧ result.2.length = 2 ∧
      ∃ rows, rows.Perm [(first, ⟨⟨5⟩, [.null]⟩), (late, ⟨⟨4⟩, [.bool true]⟩)] ∧
        List.Forall₂ Carried rows (rowsOf result.2) := by
  intro first late requests result
  have hbatches : ∀ e ∈ Request.batches requests,
      e.2.checkConsistency = .ok () ∧ e.2.rows ≠ [] := by
    intro e he
    rcases List.mem_cons.1 he with rfl | he
    · exact ⟨rfl, List.cons_ne_nil _ _⟩
    · rw [List.mem_singleton.1 he]
      exact ⟨rfl, List.cons_ne_nil _ _⟩
  obtain ⟨hpending, -, hrows⟩ := run_conserves_rows none requests hbatches
  exact ⟨hpending, by decide +kernel, hrows⟩

end SeriesPipeline.Merging
