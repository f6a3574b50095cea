import Mathlib
import SeriesPipeline.Proofs.Windowing.EachPane

/-!
# Accounting of rows

A batch leaves no row out of account, at any instant up to the first and the last one. A row is
buffered once under every open end whose window covers it; it counts as late when windows cover it
but all of them are closed, and as unwindowed when no window covers it. What the horizon closes then
are the smallest ends, and as many are left as it allows.
-/

namespace SeriesPipeline.Windowing

variable {op op' start : Windowing} {low : List (Instant × Panes)} {b : Batch} {key : SeriesKey}
  {columns : List String} {t stop : Instant}

/-! ## What becomes of a row -/

/-- What a batch does with a row. -/
inductive Fate where
  | buffered
  | late
  | unwindowed
  deriving DecidableEq

/-- The fate of a row at `t` by the windows that cover it, of all that end at instants. -/
def HasFate (op : Windowing) (t : Instant) : Fate → Prop
  | .buffered => ∃ stop, op.Assigns t stop
  | .late =>
    (∃ stop, Covers op.period.reach op.every.reach t stop) ∧
      ∀ stop, Covers op.period.reach op.every.reach t stop → op.isClosed stop = true
  | .unwindowed => ¬ ∃ stop, Covers op.period.reach op.every.reach t stop

/-- The fate of a row at `t` by the ends that are listed for it. -/
def fate (op : Windowing) (t : Instant) : Fate :=
  let covering := coveringEnds op.period.reach op.every.reach t
  if covering.isEmpty then .unwindowed
  else if covering.all op.isClosed then .late
  else .buffered

theorem coveringEnds_isEmpty_iff (hevery : 0 < op.every.reach) :
    (coveringEnds op.period.reach op.every.reach t).isEmpty = true ↔
      ¬ ∃ stop, Covers op.period.reach op.every.reach t stop := by
  rw [List.isEmpty_iff, List.eq_nil_iff_forall_not_mem, not_exists]
  simp only [mem_coveringEnds hevery]

theorem coveringEnds_all_isClosed_iff (hevery : 0 < op.every.reach) :
    (coveringEnds op.period.reach op.every.reach t).all op.isClosed = true ↔
      ∀ stop, Covers op.period.reach op.every.reach t stop → op.isClosed stop = true := by
  rw [List.all_eq_true]
  simp only [mem_coveringEnds hevery]

/-- Every row has one fate. -/
theorem hasFate_iff (hevery : 0 < op.every.reach) (t : Instant) (f : Fate) :
    op.HasFate t f ↔ op.fate t = f := by
  have hempty := coveringEnds_isEmpty_iff (t := t) hevery
  have hclosed := coveringEnds_all_isClosed_iff (t := t) hevery
  have hassigned : (∃ stop, op.Assigns t stop) ↔
      ¬ ∀ stop, Covers op.period.reach op.every.reach t stop → op.isClosed stop = true := by
    simp only [Assigns, not_forall, Bool.not_eq_true, exists_prop]
  rw [fate]
  -- each branch of the listed ends rules out the other two fates
  split
  · rename_i hnone
    have hnot := hempty.1 hnone
    cases f with
    | buffered =>
      refine iff_of_false ?_ (by decide)
      rintro ⟨stop, h⟩
      exact hnot ⟨stop, h.1⟩
    | late => exact iff_of_false (fun h => hnot h.1) (by decide)
    | unwindowed => exact iff_of_true hnot rfl
  · rename_i hsome
    have hcovered := not_not.1 (mt hempty.2 hsome)
    split
    · rename_i hall
      cases f with
      | buffered => exact iff_of_false (fun h => hassigned.1 h (hclosed.1 hall)) (by decide)
      | late => exact iff_of_true ⟨hcovered, hclosed.1 hall⟩ rfl
      | unwindowed => exact iff_of_false (fun h => h hcovered) (by decide)
    · rename_i hopen
      cases f with
      | buffered => exact iff_of_true (hassigned.2 (mt hclosed.2 hopen)) rfl
      | late => exact iff_of_false (fun h => hopen (hclosed.2 h.2)) (by decide)
      | unwindowed => exact iff_of_false (fun h => h hcovered) (by decide)

/-! ## Counters -/

theorem isEmpty_filter_not_isClosed (op : Windowing) (stops : List Instant) :
    (stops.filter fun stop => !op.isClosed stop).isEmpty = stops.all op.isClosed := by
  rw [Bool.eq_iff_iff, List.isEmpty_iff, List.filter_eq_nil_iff, List.all_eq_true]
  simp only [Bool.not_eq_true, Bool.not_eq_false']

theorem counters_addRow (key : SeriesKey) (columns : List String) (op : Windowing) (row : Row) :
    (addRow key columns op row).lateRows = op.lateRows + [op.fate row.time].count .late ∧
      (addRow key columns op row).unwindowedRows =
        op.unwindowedRows + [op.fate row.time].count .unwindowed := by
  simp only [addRow, fate, isEmpty_filter_not_isClosed]
  split
  · exact ⟨rfl, rfl⟩
  · split
    · exact ⟨rfl, rfl⟩
    · exact ⟨rfl, rfl⟩

/-- Placing a row closes no end, so it changes the fate of no other row. -/
theorem fate_addRow (key : SeriesKey) (columns : List String) (op : Windowing) (row : Row) :
    (addRow key columns op row).fate = op.fate := by
  obtain ⟨late, unwindowed, heq⟩ := addRow_eq key columns op row
  rw [heq]
  rfl

theorem counters_foldl_addRow (key : SeriesKey) (columns : List String) (op : Windowing)
    (rows : List Row) :
    (rows.foldl (addRow key columns) op).lateRows =
        op.lateRows + ((rows.map (·.time)).map op.fate).count .late ∧
      (rows.foldl (addRow key columns) op).unwindowedRows =
        op.unwindowedRows + ((rows.map (·.time)).map op.fate).count .unwindowed := by
  -- the rest of the rows have the same fates after the first one as before it
  induction rows generalizing op with
  | nil => exact ⟨rfl, rfl⟩
  | cons row rest ih =>
    obtain ⟨hlate, hunwindowed⟩ := counters_addRow key columns op row
    have hrest := ih (addRow key columns op row)
    rw [fate_addRow, hlate, hunwindowed, Nat.add_assoc, Nat.add_assoc, ← List.count_append,
      ← List.count_append] at hrest
    exact hrest

theorem Evicts.counters (h : Evicts op op' low) :
    op'.lateRows = op.lateRows ∧ op'.unwindowedRows = op.unwindowedRows ∧
      op'.horizon = op.horizon := by
  obtain ⟨panes, c, heq⟩ := h.config
  rw [heq]
  exact ⟨rfl, rfl, rfl⟩

theorem counters_onBatch (op : Windowing) (b : Batch) :
    (op.onBatch b).1.lateRows = op.lateRows + (b.times.map op.fate).count .late ∧
      (op.onBatch b).1.unwindowedRows =
        op.unwindowedRows + (b.times.map op.fate).count .unwindowed := by
  obtain ⟨hlate, hunwindowed, -⟩ := (evicts_excess (op.placeRows b)).counters
  obtain ⟨hlate', hunwindowed'⟩ := counters_foldl_addRow (op.grouping.keyFor b) b.columns op b.rows
  exact ⟨hlate.trans hlate', hunwindowed.trans hunwindowed'⟩

/-! ## Horizon -/

/-- The ends that are closed come before the ends that are kept. -/
theorem Evicts.lt_of_kept (h : Evicts op op' low) {e e' : Instant × Panes} (he : e ∈ low)
    (he' : e' ∈ op'.panes.entries) : e.1 < e'.1 := by
  have hsorted := lt_of_mem_entries op.panes.sorted
  rw [h.entries] at hsorted
  exact (List.pairwise_append.1 hsorted).2.2 e he e' he'

theorem size_enforceHorizon {horizon : Nat} (h : op.horizon = some horizon) :
    op.enforceHorizon.1.panes.size = min op.panes.size horizon := by
  rw [enforceHorizon_eq op h]
  obtain ⟨c, hc⟩ := foldl_closeThrough { op with panes := op.panes.keepLast horizon }
    (op.panes.entries.take (op.panes.size - horizon))
  rw [hc]
  exact SortedMap.size_keepLast op.panes horizon

theorem isClosed_enforceHorizon_iff (op : Windowing) (stop : Instant) :
    op.enforceHorizon.1.isClosed stop = true ↔
      op.isClosed stop = true ∨ ∃ e ∈ op.excess, stop ≤ e.1 := by
  cases hhorizon : op.horizon with
  | none =>
    rw [excess, enforceHorizon, hhorizon]
    simp
  | some horizon =>
    rw [enforceHorizon_eq op hhorizon, isClosed_foldl_closeThrough, excess, hhorizon]
    rfl

/-! ## Runs -/

/-- A windowing set up like `start`, with panes that hold rows. -/
structure Holding (start op : Windowing) : Prop where
  every : 0 < start.every.reach
  advances : Advances start op
  horizon : op.horizon = start.horizon
  panes : op.EachPane fun key _ pane => ∃ entries, PaneHolds key entries (some pane)

theorem exists_paneHolds {pane : Option Batch}
    (h : ∀ p ∈ pane, ∃ entries, PaneHolds key entries (some p)) :
    ∃ entries, PaneHolds key entries pane := by
  cases pane with
  | none => exact ⟨[], rfl⟩
  | some p => exact h p rfl

namespace Holding

theorem every_pos (h : Holding start op) : 0 < op.every.reach := h.advances.every ▸ h.every

theorem placeRows (h : Holding start op) (hb : b.Consistent) : Holding start (op.placeRows b) := by
  refine ⟨h.every, h.advances.trans (op.advances_placeRows b), ?_, ?_⟩
  · obtain ⟨panes, late, unwindowed, heq⟩ := op.placeRows_eq b
    rw [heq]
    exact h.horizon
  · refine h.panes.placeRows h.every_pos fun row hrow stop _ pane hpane => ?_
    obtain ⟨entries, hholds⟩ := exists_paneHolds hpane
    have hwell : Entry.WellFormed ⟨b.columns, row⟩ := hb.wellFormed _ (List.mem_map_of_mem hrow)
    exact ⟨_, hholds.withRow hwell⟩

theorem evicts (h : Holding start op) (hevicts : Evicts op op' low) : Holding start op' :=
  ⟨h.every, h.advances.trans hevicts.advances, hevicts.counters.2.2.trans h.horizon,
    h.panes.evicts hevicts⟩

theorem take (h : Holding start op) {r : Request} (hr : ∀ e ∈ r.batch?, e.2.Consistent) :
    Holding start (op.take r).1 := by
  cases r with
  | batch port b => exact (h.placeRows (hr (port, b) rfl)).evicts (evicts_excess _)
  | watermark t => exact h.evicts (evicts_onWatermark op t)
  | close =>
    exact ⟨h.every, h.advances.trans ⟨rfl, rfl, rfl, fun _ hclosed => hclosed⟩, h.horizon,
      eachPane_of_panes_eq rfl⟩

theorem run (h : Holding start op) {requests : List Request}
    (hrequests : ∀ r ∈ requests, ∀ e ∈ r.batch?, e.2.Consistent) :
    Holding start (Request.run Windowing.take op requests).1 := by
  induction requests generalizing op with
  | nil => exact h
  | cons r rest ih =>
    obtain ⟨hr, hrest⟩ := List.forall_mem_cons.1 hrequests
    exact ih (h.take hr) hrest

end Holding

theorem holding_new {period every : Span} (grouping : Grouping) (horizon : Option Nat)
    (hevery : 0 < every.reach) :
    Holding (new period every grouping horizon) (new period every grouping horizon) :=
  ⟨hevery, .refl _, rfl, eachPane_of_panes_eq rfl⟩

/-- In every state that a run leads to, a batch accounts for each of its rows. Every instant has one
fate. Each pane has all rows that it held and the rows that are assigned to its end, each once; the
others are counted by their fate. Then the smallest ends are closed and given out, until no more are
open than the horizon allows. -/
theorem onBatch_accounts (period every : Span) (grouping : Grouping) (horizon : Option Nat)
    (requests : List Request) (b : Batch) (hevery : 1 ≤ every.nanos)
    (hrequests : ∀ port b, .batch port b ∈ requests → b.checkConsistency = .ok ())
    (hb : b.checkConsistency = .ok ()) :
    let op := (Request.run take (new period every grouping horizon) requests).1
    let filled := op.placeRows b
    let done := op.onBatch b
    (op.period = period ∧ op.every = every) ∧
    (∀ t f, op.HasFate t f ↔ op.fate t = f) ∧
    (∀ key stop, ∃ held, PaneHolds key held (op.pane? key stop) ∧
      PaneHolds key (held ++ op.assignedBy key stop (.batch 0 b)) (filled.pane? key stop)) ∧
    done.1.lateRows = op.lateRows + (b.times.map op.fate).count .late ∧
    done.1.unwindowedRows = op.unwindowedRows + (b.times.map op.fate).count .unwindowed ∧
    (∃ early, filled.panes.entries = early ++ done.1.panes.entries ∧
      done.2 = filled.flushAll early ∧
      (∀ e ∈ early, ∀ kept ∈ done.1.panes.entries, e.1 < kept.1) ∧
      (∀ stop, done.1.isClosed stop = true ↔ op.isClosed stop = true ∨ ∃ e ∈ early, stop ≤ e.1) ∧
      (horizon = none → early = [])) ∧
    ∀ limit, horizon = some limit → done.1.panes.size = min filled.panes.size limit := by
  intro op filled done
  have hholding : Holding (new period every grouping horizon) op := by
    refine (holding_new grouping horizon (Span.reach_pos hevery)).run fun r hr e he => ?_
    cases r with
    | batch port b =>
      cases he
      exact Batch.checkConsistency_eq_ok_iff.1 (hrequests port b hr)
    | watermark t => cases he
    | close => cases he
  have hconsistent := Batch.checkConsistency_eq_ok_iff.1 hb
  have hhorizon : filled.horizon = horizon := (hholding.placeRows hconsistent).horizon
  have hevicts : Evicts filled done.1 filled.excess := evicts_excess filled
  obtain ⟨hlate, hunwindowed⟩ := counters_onBatch op b
  refine ⟨⟨hholding.advances.period, hholding.advances.every⟩, hasFate_iff hholding.every_pos, ?_,
    hlate, hunwindowed, ⟨filled.excess, hevicts.entries, enforceHorizon_snd filled, ?_, ?_, ?_⟩, ?_⟩
  · intro key stop
    obtain ⟨held, hheld⟩ := exists_paneHolds (hholding.panes key stop)
    exact ⟨held, hheld, hheld.placeRows hholding.every_pos 0 hconsistent⟩
  · exact fun e he kept hkept => hevicts.lt_of_kept he hkept
  · intro stop
    rw [← isClosed_placeRows op b]
    exact isClosed_enforceHorizon_iff filled stop
  · intro hnone
    rw [excess, hhorizon, hnone]
  · exact fun limit hlimit => size_enforceHorizon (hhorizon.trans hlimit)

/-- Windows of 5 end at the multiples of 10, at most one end is open, and a watermark at 10 has
come. The row at 2 is between windows and the row at 7 is late. Those at 17 and 27 are buffered, and
the window that ends at 20 is given out to leave the one that ends at 30. -/
theorem onBatch_accounts_apart :
    let requests : List Request := [.watermark ⟨10⟩]
    let op := (Request.run take (new ⟨5⟩ ⟨10⟩ Grouping.empty (some 1)) requests).1
    let b : Batch := ⟨"m", ∅, [], [⟨⟨2⟩, []⟩, ⟨⟨7⟩, []⟩, ⟨⟨17⟩, []⟩, ⟨⟨27⟩, []⟩], none⟩
    let done := (op.onBatch b).1
    b.times.map op.fate = [.unwindowed, .late, .buffered, .buffered] ∧
      (∀ f, op.HasFate ⟨7⟩ f ↔ f = .late) ∧
      done.lateRows = 1 ∧ done.unwindowedRows = 1 ∧ done.panes.size = 1 ∧
      (op.onBatch b).2.map (·.window) = [some ⟨⟨15⟩, ⟨20⟩⟩] := by
  intro requests op b done
  have hrequests : ∀ port b', .batch port b' ∈ requests → b'.checkConsistency = .ok () := by
    simp [requests]
  obtain ⟨-, hfates, -, hlate, hunwindowed, -, hsize⟩ := onBatch_accounts ⟨5⟩ ⟨10⟩ Grouping.empty
    (some 1) requests b (by decide) hrequests rfl
  have hop : (Request.run take (new ⟨5⟩ ⟨10⟩ Grouping.empty (some 1)) requests).1 = op := rfl
  have hall : b.times.map op.fate = [.unwindowed, .late, .buffered, .buffered] := by
    decide +kernel
  have hseven : op.fate ⟨7⟩ = .late := by decide +kernel
  have hfilled : (op.placeRows b).panes.size = 2 := by decide +kernel
  rw [hop, hall] at hlate hunwindowed
  refine ⟨hall, fun f => (hfates ⟨7⟩ f).trans (hseven ▸ eq_comm), hlate, hunwindowed, ?_, ?_⟩
  · rw [hop] at hsize
    exact (hsize 1 rfl).trans (hfilled ▸ rfl)
  · simp only [op, b, requests]
    cbv

end SeriesPipeline.Windowing
