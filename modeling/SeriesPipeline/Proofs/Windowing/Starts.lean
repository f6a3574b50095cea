import Mathlib
import SeriesPipeline.Proofs.Windowing.EachPane
import SeriesPipeline.Proofs.Windowing.Splitting

/-!
# The order of window starts

Ends are closed in order, so the windows that a group gives out come in order of their ends. In
pieces of buckets they come in order of their starts as well, as long as two windows never share
rows of different buckets: the starts of a group never go back in any run exactly when the windows
and the buckets of the windowing are such, as they are when windows do not overlap. Where windows
share rows of two buckets, the second window gives out the earlier bucket after the first window has
given out the later one.
-/

namespace SeriesPipeline

namespace Windowing

variable {bucket : Span} {period every : Int} {b piece pane pane' : Batch} {rows : List Row}
  {stop stop' t u : Instant} {op op' start : Windowing} {key : SeriesKey} {out : List Batch}

theorem key_of_mem_pieces (h : b ∈ op.pieces stop pane) : b.key = pane.key := by
  rw [pieces] at h
  split at h
  · rw [List.mem_singleton.1 h]
    rfl
  · rw [(isPiece_of_mem_splitRows h).eq]
    rfl

/-! ## Order of windows -/

/-- `b` may come after `a`: of one group, the window of `b` starts no earlier. -/
def StartsNoEarlier (a b : Batch) : Prop :=
  a.key = b.key → ∃ v ∈ a.window, ∃ w ∈ b.window, v.start ≤ w.start

instance (a b : Batch) : Decidable (StartsNoEarlier a b) :=
  inferInstanceAs (Decidable (_ → _))

/-- Rows that two windows share are of one bucket. -/
def SharesOneBucket (period every : Int) (bucket : Span) : Prop :=
  ∀ stop stop' t u : Instant, stop < stop' →
    Covers period every t stop → Covers period every t stop' →
    Covers period every u stop → Covers period every u stop' →
    bucketStart bucket t = bucketStart bucket u

/-- Windows that do not overlap share no rows. -/
theorem sharesOneBucket_of_le (h : period ≤ every) (bucket : Span) :
    SharesOneBucket period every bucket := by
  rintro stop stop' t u hlt ⟨hdvd, hbefore, -⟩ ⟨hdvd', -, hfrom⟩ - -
  rw [Instant.lt_def] at hlt hbefore
  -- two ends are at least `every` apart, so the later window starts where the earlier one has ended
  have hgap : every ≤ stop'.toInt - stop.toInt :=
    Int.le_of_dvd (Int.sub_pos.2 hlt) (Int.dvd_sub hdvd' hdvd)
  omega

theorem StartsBefore.startsNoEarlier (h : StartsBefore b piece) : StartsNoEarlier b piece := by
  intro _
  obtain ⟨v, hv, w, hw, hlt⟩ := h
  exact ⟨v, hv, w, hw, hlt.le⟩

theorem pairwise_pieces (op : Windowing) (stop : Instant) (pane : Batch) :
    (op.pieces stop pane).Pairwise StartsNoEarlier := by
  rw [pieces]
  split
  · exact List.pairwise_singleton _ _
  · have hordered := List.pairwise_map.1 (Batch.pairwise_times_sortRows pane)
    exact (pairwise_splitRows hordered _ _).imp StartsBefore.startsNoEarlier

/-- Of two windows the later one starts no earlier, and neither does a bucket of its rows. -/
theorem startsNoEarlier_of_lt
    (hshares : ∀ bucket ∈ op.grouping.bucket,
      SharesOneBucket op.period.reach op.every.reach bucket)
    (hlt : stop < stop') (hpane : Covered op.period.reach op.every.reach stop pane)
    (hpane' : Covered op.period.reach op.every.reach stop' pane')
    (hpiece : piece ∈ op.pieces stop pane) (hb : b ∈ op.pieces stop' pane') :
    StartsNoEarlier piece b := by
  intro _
  rw [pieces] at hpiece hb
  cases hbucket : op.grouping.bucket with
  | none =>
    rw [hbucket] at hpiece hb
    rw [List.mem_singleton.1 hpiece, List.mem_singleton.1 hb]
    exact ⟨_, rfl, _, rfl, Instant.clamp_le_clamp (Int.sub_le_sub_right hlt.le _)⟩
  | some bucket =>
    rw [hbucket] at hpiece hb
    have hfirst := isPiece_of_mem_splitRows hpiece
    have hsecond := isPiece_of_mem_splitRows hb
    obtain ⟨r, hr⟩ := List.exists_mem_of_ne_nil _ hfirst.nonempty
    obtain ⟨s, hs⟩ := List.exists_mem_of_ne_nil _ hsecond.nonempty
    refine ⟨_, hfirst.window r hr, _, hsecond.window s hs, ?_⟩
    show bucketStart bucket r.time ≤ bucketStart bucket s.time
    have hcovers : Covers op.period.reach op.every.reach r.time stop :=
      hpane.covers _ (mem_times_of_sublist hfirst.sublist (List.mem_map_of_mem hr))
    have hcovers' : Covers op.period.reach op.every.reach s.time stop' :=
      hpane'.covers _ (mem_times_of_sublist hsecond.sublist (List.mem_map_of_mem hs))
    rcases le_or_gt r.time s.time with hle | hback
    · exact bucketStart_le_bucketStart hle
    · -- the row of the later window is the earlier one, so each window covers both rows
      obtain ⟨hdvd, hbefore, hfrom⟩ := hcovers
      obtain ⟨hdvd', hbefore', hfrom'⟩ := hcovers'
      have hshared : Covers op.period.reach op.every.reach r.time stop' :=
        ⟨hdvd', hbefore.trans hlt, hfrom'.trans (Instant.lt_def.1 hback).le⟩
      have hshared' : Covers op.period.reach op.every.reach s.time stop := by
        refine ⟨hdvd, hback.trans hbefore, ?_⟩
        rw [Instant.lt_def] at hlt
        omega
      exact (hshares bucket hbucket stop stop' r.time s.time hlt ⟨hdvd, hbefore, hfrom⟩ hshared
        hshared' ⟨hdvd', hbefore', hfrom'⟩).le

/-! ## Runs -/

/-- A pane of its group, of rows that its window covers. -/
structure GroupPane (start : Windowing) (key : SeriesKey) (stop : Instant) (pane : Batch) :
    Prop where
  key_eq : pane.key = key
  covered : Covered start.period.reach start.every.reach stop pane

/-- The panes are of open ends, and what has been given out came of closed ends, in order. -/
structure InOrder (start op : Windowing) (out : List Batch) : Prop where
  every : 0 < start.every.reach
  advances : Advances start op
  panes : op.EachPane fun key stop pane =>
    GroupPane start key stop pane ∧ op.isClosed stop = false
  emitted : ∀ b ∈ out, ∃ key stop pane, op.isClosed stop = true ∧ GroupPane start key stop pane ∧
    b ∈ start.pieces stop pane
  ordered : out.Pairwise StartsNoEarlier

theorem flushAll_eq (op : Windowing) (ends : List (Instant × Panes)) :
    op.flushAll ends = ends.flatMap fun e => e.2.values.flatMap (op.pieces e.1) :=
  rfl

theorem Advances.pieces_eq (h : Advances op op') : op'.pieces = op.pieces := by
  funext stop pane
  rw [pieces, pieces, h.grouping, h.period]

theorem Advances.flushAll_eq (h : Advances op op') (ends : List (Instant × Panes)) :
    op'.flushAll ends = op.flushAll ends := by
  rw [Windowing.flushAll_eq, Windowing.flushAll_eq, h.pieces_eq]

/-- The panes of some ends in order of their ends, and those of one end by group. -/
theorem pairwise_flushAll
    (hshares : ∀ bucket ∈ op.grouping.bucket,
      SharesOneBucket op.period.reach op.every.reach bucket)
    {ends : List (Instant × Panes)} (hends : ends.Pairwise (fun a b => compare a.1 b.1 = .lt))
    (hpanes : ∀ e ∈ ends, ∀ g ∈ e.2.entries, GroupPane op g.1 e.1 g.2) :
    (op.flushAll ends).Pairwise StartsNoEarlier := by
  rw [flushAll_eq, List.pairwise_flatMap]
  constructor
  · intro e he
    rw [SortedMap.values, List.flatMap_map, List.pairwise_flatMap]
    refine ⟨fun g _ => pairwise_pieces op e.1 g.2, e.2.sorted.imp_of_mem ?_⟩
    intro g g' hg hg' hlt a ha b hb heq
    -- two groups of one end have different keys
    rw [key_of_mem_pieces ha, key_of_mem_pieces hb, (hpanes e he g hg).key_eq,
      (hpanes e he g' hg').key_eq] at heq
    rw [heq, SortedMap.compare_self_eq] at hlt
    cases hlt
  · refine (lt_of_mem_entries hends).imp_of_mem ?_
    intro e e' he he' hlt a ha b hb
    obtain ⟨pane, hpane, ha⟩ := List.mem_flatMap.1 ha
    obtain ⟨pane', hpane', hb⟩ := List.mem_flatMap.1 hb
    obtain ⟨g, hg, rfl⟩ := List.mem_map.1 hpane
    obtain ⟨g', hg', rfl⟩ := List.mem_map.1 hpane'
    exact startsNoEarlier_of_lt hshares hlt (hpanes e he g hg).covered
      (hpanes e' he' g' hg').covered ha hb

theorem groupPane_withRow {row : Row} (hevery : 0 < start.every.reach)
    (hcovers : Covers start.period.reach start.every.reach row.time stop) (columns : List String)
    {pane : Option Batch} (hpane : ∀ p ∈ pane, GroupPane start key stop p) :
    GroupPane start key stop (withRow key columns row pane) := by
  constructor
  · rw [withRow, Batch.key, Batch.name_pushAligned, Batch.tags_pushAligned]
    cases pane with
    | none => rfl
    | some p => exact (hpane p rfl).key_eq
  · exact extends_covered hevery ((mem_coveringEnds hevery row.time stop).2 hcovers) pane
      fun p hp => (hpane p hp).covered

namespace InOrder

theorem placeRows (h : InOrder start op out) (b : Batch) : InOrder start (op.placeRows b) out := by
  have hadvances := op.advances_placeRows b
  have hpanes : (op.placeRows b).EachPane fun key stop pane =>
      GroupPane start key stop pane ∧ op.isClosed stop = false := by
    refine h.panes.placeRows (h.advances.every ▸ h.every) fun row _ stop hassigns pane hpane => ?_
    obtain ⟨hcovers, hopen⟩ := hassigns
    rw [h.advances.period, h.advances.every] at hcovers
    exact ⟨groupPane_withRow h.every hcovers _ fun p hp => (hpane p hp).1, hopen⟩
  refine ⟨h.every, h.advances.trans hadvances, ?_, ?_, h.ordered⟩
  · simp only [isClosed_placeRows]
    exact hpanes
  · simp only [isClosed_placeRows]
    exact h.emitted

/-- What the closed ends give out comes in order, and after what was given out before. -/
theorem evicts (h : InOrder start op out)
    (hshares : ∀ bucket ∈ start.grouping.bucket,
      SharesOneBucket start.period.reach start.every.reach bucket)
    {low : List (Instant × Panes)} (hevicts : Evicts op op' low) :
    InOrder start op' (out ++ op.flushAll low) := by
  have hmem : ∀ b ∈ start.flushAll low, ∃ key stop pane, op.pane? key stop = some pane ∧
      op'.isClosed stop = true ∧ b ∈ start.pieces stop pane := by
    rw [← h.advances.flushAll_eq, ← h.advances.pieces_eq]
    exact fun b => hevicts.exists_pane_of_mem_flushAll
  rw [h.advances.flushAll_eq]
  refine ⟨h.every, h.advances.trans hevicts.advances, ?_, ?_, ?_⟩
  · intro key stop pane hkept
    obtain ⟨hgroup, hopen⟩ := h.panes key stop pane (hevicts.pane?_of_kept hkept)
    exact ⟨hgroup, hevicts.isClosed_of_kept hkept hopen⟩
  · intro b hb
    rcases List.mem_append.1 hb with hb | hb
    · obtain ⟨key, stop, pane, hclosed, hrest⟩ := h.emitted b hb
      exact ⟨key, stop, pane, hevicts.keeps stop hclosed, hrest⟩
    · obtain ⟨key, stop, pane, hpane, hclosed, hb⟩ := hmem b hb
      exact ⟨key, stop, pane, hclosed, (h.panes key stop pane hpane).1, hb⟩
  · refine List.pairwise_append.2 ⟨h.ordered, ?_, ?_⟩
    · refine pairwise_flushAll hshares hevicts.sorted fun e he g hg => ?_
      exact (h.panes g.1 e.1 g.2 (pane?_eq_some_iff.2 ⟨e.2, hevicts.mem_entries he, hg⟩)).1
    · -- what was given out before is of a closed end, and a pane is of an open one
      intro a ha b hb
      obtain ⟨key, stop, pane, hclosed, hfirst, ha⟩ := h.emitted a ha
      obtain ⟨key', stop', pane', hpane, -, hb⟩ := hmem b hb
      obtain ⟨hsecond, hopen⟩ := h.panes key' stop' pane' hpane
      exact startsNoEarlier_of_lt hshares (lt_of_isClosed hclosed hopen) hfirst.covered
        hsecond.covered ha hb

theorem take (h : InOrder start op out)
    (hshares : ∀ bucket ∈ start.grouping.bucket,
      SharesOneBucket start.period.reach start.every.reach bucket) (r : Request) :
    InOrder start (op.take r).1 (out ++ (op.take r).2) := by
  cases r with
  | batch port b =>
    rw [Windowing.take, onBatch_eq, enforceHorizon_snd]
    exact (h.placeRows b).evicts hshares (evicts_excess _)
  | watermark t => exact h.evicts hshares (evicts_onWatermark op t)
  | close =>
    rw [Windowing.take, List.append_nil]
    exact ⟨h.every, h.advances.trans ⟨rfl, rfl, rfl, fun _ hclosed => hclosed⟩,
      eachPane_of_panes_eq rfl, h.emitted, h.ordered⟩

theorem run (h : InOrder start op out)
    (hshares : ∀ bucket ∈ start.grouping.bucket,
      SharesOneBucket start.period.reach start.every.reach bucket) (requests : List Request) :
    InOrder start (Request.run Windowing.take op requests).1
      (out ++ (Request.run Windowing.take op requests).2) := by
  induction requests generalizing op out with
  | nil =>
    rw [Request.run_nil, List.append_nil]
    exact h
  | cons r rest ih =>
    rw [Request.run_cons, ← List.append_assoc]
    exact ih (h.take hshares r)

end InOrder

theorem inOrder_new {period every : Span} (grouping : Grouping) (horizon : Option Nat)
    (hevery : 0 < every.reach) :
    InOrder (new period every grouping horizon) (new period every grouping horizon) [] :=
  ⟨hevery, .refl _, eachPane_of_panes_eq rfl, nofun, .nil⟩

/-! ## Where the order breaks -/

/-- A watermark after all ends gives out all panes, those that the horizon has closed first. -/
theorem run_batch_greatest (op : Windowing) (port : Nat) (b : Batch) :
    (Request.run take op [.batch port b, .watermark .greatest]).2 =
      (op.placeRows b).flushAll (op.placeRows b).panes.entries := by
  have hevicts := evicts_excess (op.placeRows b)
  have hall : ((op.placeRows b).enforceHorizon.1.panes.filter
      fun stop _ => decide (stop ≤ .greatest)).entries =
      (op.placeRows b).enforceHorizon.1.panes.entries :=
    List.filter_eq_self.2 fun e _ => decide_eq_true e.1.bounds.2
  have hlast : ((op.placeRows b).enforceHorizon.1.onWatermark .greatest).2 =
      (op.placeRows b).flushAll (op.placeRows b).enforceHorizon.1.panes.entries := by
    rw [← hevicts.advances.flushAll_eq, ← hall]
    rfl
  rw [Request.run_cons, Request.run_cons, Request.run_nil, List.append_nil, take, take, onBatch_eq,
    enforceHorizon_snd, hlast, flushAll_eq, flushAll_eq, ← List.flatMap_append, ← hevicts.entries]
  rfl

theorem exists_piece_of_mem_times (hbucket : op.grouping.bucket = some bucket)
    (ht : t ∈ pane.times) (stop : Instant) :
    ∃ piece ∈ op.pieces stop pane, piece.window = some (bucketWindow bucket t) := by
  obtain ⟨r, hr, rfl⟩ := List.mem_map.1 ht
  have hsorted : r ∈ pane.sortRows.rows := (Batch.sortRows_perm pane).mem_iff.2 hr
  rw [← rows_splitRows bucket pane.sortRows pane.sortRows.rows] at hsorted
  obtain ⟨piece, hpiece, hr⟩ := List.mem_flatMap.1 hsorted
  refine ⟨piece, ?_, (isPiece_of_mem_splitRows hpiece).window r hr⟩
  rw [pieces, hbucket]
  exact hpiece

/-- A row is in the panes of the windows that cover it, when nothing has been closed. -/
theorem exists_pane_placeRows (hevery : 0 < op.every.reach) (hpanes : op.panes = ∅)
    (hclosed : op.closedThrough = none) (hb : b.Consistent) (ht : t ∈ b.times)
    (hcovers : Covers op.period.reach op.every.reach t stop) :
    ∃ pane, (op.placeRows b).pane? (op.grouping.keyFor b) stop = some pane ∧
      pane.key = op.grouping.keyFor b ∧ t ∈ pane.times := by
  have hopen : op.isClosed stop = false := by
    rw [isClosed, hclosed]
    rfl
  have hempty : PaneHolds (op.grouping.keyFor b) [] (op.pane? (op.grouping.keyFor b) stop) := by
    rw [pane?, paneIn, hpanes]
    rfl
  have hholds := hempty.placeRows hevery 0 hb
  rw [List.nil_append, assignedBy, if_pos rfl] at hholds
  obtain ⟨r, hr, rfl⟩ := List.mem_map.1 ht
  have hentry : (⟨b.columns, r⟩ : Entry) ∈ b.entries.filter fun e => op.Assigns e.time stop :=
    List.mem_filter.2 ⟨List.mem_map_of_mem hr, decide_eq_true ⟨hcovers, hopen⟩⟩
  cases hpane : (op.placeRows b).pane? (op.grouping.keyFor b) stop with
  | none =>
    rw [hpane] at hholds
    rw [show List.filter _ _ = _ from hholds] at hentry
    cases hentry
  | some pane =>
    rw [hpane] at hholds
    refine ⟨pane, rfl, hholds.2.1, ?_⟩
    rw [Batch.times, hholds.2.2.time]
    exact List.mem_map_of_mem hentry

theorem rel_of_lt_of_pairwise {R : Instant × Panes → Instant × Panes → Prop}
    {ends : List (Instant × Panes)} (hends : ends.Pairwise (fun a b => a.1 < b.1))
    (hR : ends.Pairwise R) {e e' : Instant × Panes} (he : e ∈ ends) (he' : e' ∈ ends)
    (hlt : e.1 < e'.1) : R e e' := by
  obtain ⟨i, hi, rfl⟩ := List.mem_iff_getElem.1 he
  obtain ⟨j, hj, rfl⟩ := List.mem_iff_getElem.1 he'
  rcases Nat.lt_trichotomy i j with hij | rfl | hji
  · exact List.pairwise_iff_getElem.1 hR i j hi hj hij
  · exact absurd hlt (lt_irrefl _)
  · exact absurd hlt (not_lt.2 (List.pairwise_iff_getElem.1 hends j i hj hi hji).le)

/-- When a run of one batch is in order, a row of a window is in no later bucket than the rows of
the windows after it. -/
theorem bucketStart_le_of_ordered (hevery : 0 < op.every.reach) (hpanes : op.panes = ∅)
    (hclosed : op.closedThrough = none) (hbucket : op.grouping.bucket = some bucket)
    (hb : b.Consistent) {port : Nat}
    (hordered : (Request.run take op [.batch port b, .watermark .greatest]).2.Pairwise
      StartsNoEarlier)
    (ht : t ∈ b.times) (hu : u ∈ b.times) (hlt : stop < stop')
    (hcovers : Covers op.period.reach op.every.reach t stop)
    (hcovers' : Covers op.period.reach op.every.reach u stop') :
    bucketStart bucket t ≤ bucketStart bucket u := by
  obtain ⟨pane, hpane, hkey, ht⟩ := exists_pane_placeRows hevery hpanes hclosed hb ht hcovers
  obtain ⟨pane', hpane', hkey', hu⟩ := exists_pane_placeRows hevery hpanes hclosed hb hu hcovers'
  obtain ⟨groups, hgroups, hentry⟩ := pane?_eq_some_iff.1 hpane
  obtain ⟨groups', hgroups', hentry'⟩ := pane?_eq_some_iff.1 hpane'
  have hplaced : (op.placeRows b).grouping.bucket = some bucket :=
    (op.advances_placeRows b).grouping ▸ hbucket
  obtain ⟨first, hfirst, hw⟩ := exists_piece_of_mem_times hplaced ht stop
  obtain ⟨second, hsecond, hw'⟩ := exists_piece_of_mem_times hplaced hu stop'
  rw [run_batch_greatest, flushAll_eq, List.pairwise_flatMap] at hordered
  have hrel := rel_of_lt_of_pairwise (lt_of_mem_entries (op.placeRows b).panes.sorted) hordered.2
    hgroups hgroups' hlt first (List.mem_flatMap.2 ⟨pane, List.mem_map_of_mem hentry, hfirst⟩)
    second (List.mem_flatMap.2 ⟨pane', List.mem_map_of_mem hentry', hsecond⟩)
  have hsame : first.key = second.key := by
    rw [key_of_mem_pieces hfirst, key_of_mem_pieces hsecond, hkey, hkey']
  obtain ⟨v, hv, w, hw'', hle⟩ := hrel hsame
  rw [hw] at hv
  rw [hw'] at hw''
  cases hv
  cases hw''
  exact hle

/-! ## Whole runs -/

/-- A batch of two rows without fields. -/
def pairAt (t u : Instant) : Batch := ⟨"m", ∅, [], [⟨t, []⟩, ⟨u, []⟩], none⟩

theorem consistent_pairAt (h : t ≤ u) : (pairAt t u).Consistent where
  columns := List.nodup_nil
  width r hr := by
    rcases List.mem_cons.1 hr with rfl | hr
    · rfl
    · rw [List.mem_singleton.1 hr]
      rfl
  ordered := List.pairwise_pair.2 h

/-- For each group, the window starts never go back in any run of batches and watermarks exactly
when no two windows share rows of different buckets. -/
theorem starts_never_decrease_iff (period every : Span) (grouping : Grouping)
    (horizon : Option Nat) (hevery : 1 ≤ every.nanos) :
    (∀ requests : List Request,
      (∀ port b, .batch port b ∈ requests → b.checkConsistency = .ok ()) → .close ∉ requests →
      (Request.run take (new period every grouping horizon) requests).2.Pairwise StartsNoEarlier) ↔
    ∀ bucket ∈ grouping.bucket, SharesOneBucket period.reach every.reach bucket := by
  have hreach := Span.reach_pos hevery
  constructor
  · intro hordered bucket hbucket
    have hsame : ∀ {stop stop' t u : Instant}, stop < stop' → t ≤ u →
        Covers period.reach every.reach t stop → Covers period.reach every.reach t stop' →
        Covers period.reach every.reach u stop → Covers period.reach every.reach u stop' →
        bucketStart bucket t = bucketStart bucket u := by
      intro stop stop' t u hlt hle ht ht' hu hu'
      have hb := consistent_pairAt hle
      have hrun := hordered [.batch 0 (pairAt t u), .watermark .greatest]
        (fun port b hmem => by
          rcases List.mem_cons.1 hmem with hmem | hmem
          · cases hmem
            exact Batch.checkConsistency_eq_ok_iff.2 hb
          · cases List.mem_singleton.1 hmem)
        (by simp)
      have htmem : t ∈ (pairAt t u).times := List.mem_cons_self
      have humem : u ∈ (pairAt t u).times := List.mem_cons_of_mem _ List.mem_cons_self
      -- each of the two rows may be the one that the earlier window gives out
      apply le_antisymm
      · exact bucketStart_le_of_ordered hreach rfl rfl hbucket hb hrun htmem humem hlt ht hu'
      · exact bucketStart_le_of_ordered hreach rfl rfl hbucket hb hrun humem htmem hlt hu ht'
    intro stop stop' t u hlt ht ht' hu hu'
    rcases le_total t u with hle | hle
    · exact hsame hlt hle ht ht' hu hu'
    · exact (hsame hlt hle hu hu' ht ht').symm
  · intro hshares requests _ _
    have hrun := (inOrder_new grouping horizon hreach).run hshares requests
    rw [List.nil_append] at hrun
    exact hrun.ordered

/-- Windows of 10 end to end, in buckets of 3, which do not divide 10: the next window gives out the
last bucket of a window again, and no bucket before it. -/
theorem starts_never_decrease_iff_endToEnd :
    let requests : List Request :=
      [.batch 0 (pairAt ⟨1⟩ ⟨9⟩), .watermark ⟨10⟩, .batch 0 (pairAt ⟨10⟩ ⟨13⟩), .watermark ⟨20⟩]
    let out := (Request.run take (new ⟨10⟩ ⟨10⟩ ⟨some ⟨3⟩, []⟩ none) requests).2
    out.map (·.window.map (·.start)) = [some ⟨0⟩, some ⟨9⟩, some ⟨9⟩, some ⟨12⟩] ∧
      out.Pairwise StartsNoEarlier := by
  intro requests out
  have hstarts : out.map (·.window.map (·.start)) = [some ⟨0⟩, some ⟨9⟩, some ⟨9⟩, some ⟨12⟩] := by
    simp only [out, requests]
    cbv
  refine ⟨hstarts, ?_⟩
  refine (starts_never_decrease_iff ⟨10⟩ ⟨10⟩ ⟨some ⟨3⟩, []⟩ none (by decide)).2
    (fun bucket _ => sharesOneBucket_of_le (le_refl _) bucket) requests ?_ (by simp [requests])
  intro port b hb
  rcases List.mem_cons.1 hb with hb | hb
  · cases hb
    rfl
  · simp only [List.mem_cons, reduceCtorEq, List.not_mem_nil, Request.batch.injEq, or_false,
      false_or] at hb
    rw [hb.2]
    rfl

/-- Two windows share the rows at 5 and 9, which are of different buckets: the first window gives
out the buckets from 4 and from 8, and the second one gives out the bucket from 4 after them. -/
theorem starts_decrease_in_buckets :
    let requests : List Request := [.batch 0 (pairAt ⟨5⟩ ⟨9⟩), .watermark ⟨15⟩]
    let out := (Request.run take (new ⟨10⟩ ⟨5⟩ ⟨some ⟨2⟩, []⟩ none) requests).2
    (∀ port b, .batch port b ∈ requests → b.checkConsistency = .ok ()) ∧
    out.map (·.window.map (·.start)) = [some ⟨4⟩, some ⟨8⟩, some ⟨4⟩, some ⟨8⟩] ∧
    ¬ out.Pairwise StartsNoEarlier := by
  intro requests out
  refine ⟨fun port b hb => ?_, ?_, ?_⟩
  · rcases List.mem_cons.1 hb with hb | hb
    · cases hb
      rfl
    · cases List.mem_singleton.1 hb
  · simp only [out, requests]
    cbv
  · simp only [out, requests]
    decide_cbv

end Windowing

end SeriesPipeline
