import SeriesPipeline.Proofs.Data.AlignedRows
import SeriesPipeline.Proofs.Operator.Requests
import SeriesPipeline.Proofs.SortedMap
import SeriesPipeline.Proofs.Windowing.Cover

/-!
# Panes

What the requests to a windowing do to the pane of one group and one window end. Placing a row
appends it to the panes of the open windows that cover it. A request closes the smallest window
ends, whether by a watermark or by the horizon: the panes of a lower part of the ends are emitted,
and the panes of the rest stay.
-/

namespace SeriesPipeline.Windowing

/-- The pane of a group under a window end. -/
def paneIn (panes : SortedMap Instant Panes) (key : SeriesKey) (stop : Instant) : Option Batch :=
  (panes.get? stop).bind (·.get? key)

def pane? (op : Windowing) (key : SeriesKey) (stop : Instant) : Option Batch :=
  paneIn op.panes key stop

/-! ## Closed ends -/

theorem isClosed_iff {op : Windowing} {stop : Instant} :
    op.isClosed stop = true ↔ ∃ c, op.closedThrough = some c ∧ stop ≤ c := by
  rw [isClosed, Option.any_eq_true]
  simp only [decide_eq_true_eq]

theorem isClosed_of_le {op : Windowing} {stop later : Instant} (hle : stop ≤ later)
    (h : op.isClosed later = true) : op.isClosed stop = true := by
  obtain ⟨c, hc, hlater⟩ := isClosed_iff.1 h
  exact isClosed_iff.2 ⟨c, hc, le_trans hle hlater⟩

theorem lt_of_isClosed {op : Windowing} {stop later : Instant} (h : op.isClosed stop = true)
    (hlater : op.isClosed later = false) : stop < later := by
  refine not_le.1 fun hle => ?_
  rw [isClosed_of_le hle h] at hlater
  cases hlater

theorem isClosed_closeThrough (op : Windowing) (t stop : Instant) :
    (op.closeThrough t).isClosed stop = true ↔ op.isClosed stop = true ∨ stop ≤ t := by
  rw [isClosed_iff, isClosed_iff]
  cases h : op.closedThrough with
  | none => simp [closeThrough, h]
  | some c =>
    have hmax : (op.closeThrough t).closedThrough = some (max c t) := by rw [closeThrough, h]
    rw [hmax]
    simp only [Option.some.injEq, exists_eq_left', le_max_iff]

theorem isClosed_foldl_closeThrough (op : Windowing) (ends : List (Instant × Panes))
    (stop : Instant) :
    (ends.foldl (fun op e => op.closeThrough e.1) op).isClosed stop = true ↔
      op.isClosed stop = true ∨ ∃ e ∈ ends, stop ≤ e.1 := by
  induction ends generalizing op with
  | nil => simp
  | cons e rest ih =>
    rw [List.foldl_cons, ih, isClosed_closeThrough]
    simp only [List.mem_cons, exists_eq_or_imp, or_assoc]

/-- Closing ends changes nothing but which ends are closed. -/
theorem foldl_closeThrough (op : Windowing) (ends : List (Instant × Panes)) :
    ∃ c, ends.foldl (fun op e => op.closeThrough e.1) op = { op with closedThrough := c } := by
  induction ends generalizing op with
  | nil => exact ⟨op.closedThrough, rfl⟩
  | cons e rest ih => exact ih (op.closeThrough e.1)

/-! ## Placing rows -/

/-- The row is placed under this end: an open window that ends there covers it. -/
def Assigns (op : Windowing) (t stop : Instant) : Prop :=
  Covers op.period.reach op.every.reach t stop ∧ op.isClosed stop = false

instance (op : Windowing) (t stop : Instant) : Decidable (op.Assigns t stop) :=
  inferInstanceAs (Decidable (_ ∧ _))

/-- A pane with one more row; a pane that is not there yet starts with the row's columns. -/
def withRow (key : SeriesKey) (columns : List String) (row : Row) (pane : Option Batch) : Batch :=
  (pane.getD ⟨key.name, key.tags, columns, [], none⟩).pushAligned columns row

theorem paneIn_addToPane (panes : SortedMap Instant Panes) (key key' : SeriesKey)
    (columns : List String) (row : Row) (stop stop' : Instant) :
    paneIn (addToPane panes key columns row stop) key' stop' =
      if stop' = stop ∧ key' = key then some (withRow key columns row (paneIn panes key stop))
      else paneIn panes key' stop' := by
  rw [addToPane, paneIn, SortedMap.get?_insert]
  by_cases hstop : stop' = stop
  · subst hstop
    rw [if_pos rfl, Option.bind_some, SortedMap.get?_insert]
    by_cases hkey : key' = key
    · subst hkey
      rw [if_pos rfl, if_pos ⟨rfl, rfl⟩, withRow, paneIn]
      cases panes.get? stop' <;> rfl
    · rw [if_neg hkey, if_neg (fun h => hkey h.2), paneIn]
      cases panes.get? stop' <;> rfl
  · rw [if_neg hstop, if_neg (fun h => hstop h.1), paneIn]

theorem paneIn_foldl_addToPane {panes : SortedMap Instant Panes} {key : SeriesKey}
    {columns : List String} {row : Row} {stops : List Instant} (hstops : stops.Nodup)
    (key' : SeriesKey) (stop' : Instant) :
    paneIn (stops.foldl (fun panes stop => addToPane panes key columns row stop) panes) key' stop' =
      if stop' ∈ stops ∧ key' = key then some (withRow key columns row (paneIn panes key stop'))
      else paneIn panes key' stop' := by
  -- each end comes up once, so its pane is still the one from before when its turn comes
  induction stops generalizing panes with
  | nil => simp
  | cons stop rest ih =>
    obtain ⟨hstop, hrest⟩ := List.nodup_cons.1 hstops
    rw [List.foldl_cons, ih hrest, paneIn_addToPane, paneIn_addToPane]
    by_cases hkey : key' = key
    · subst hkey
      by_cases heq : stop' = stop
      · subst heq
        simp [hstop]
      · simp [heq]
    · simp [hkey]

/-- Placing a row only touches the panes and the counters. -/
theorem addRow_eq (key : SeriesKey) (columns : List String) (op : Windowing) (row : Row) :
    ∃ late unwindowed, addRow key columns op row =
      { op with
        panes := ((coveringEnds op.period.reach op.every.reach row.time).filter fun stop =>
          !op.isClosed stop).foldl (fun panes stop => addToPane panes key columns row stop) op.panes
        lateRows := late
        unwindowedRows := unwindowed } := by
  simp only [addRow]
  -- a row without windows and a row without open windows are counted, and placed under no end
  split
  · rename_i hempty
    rw [List.isEmpty_iff.1 hempty]
    exact ⟨_, _, rfl⟩
  · split
    · rename_i hempty
      rw [List.isEmpty_iff.1 hempty]
      exact ⟨_, _, rfl⟩
    · exact ⟨_, _, rfl⟩

theorem pane?_addRow {op : Windowing} (hevery : 0 < op.every.reach) (key key' : SeriesKey)
    (columns : List String) (row : Row) (stop : Instant) :
    (addRow key columns op row).pane? key' stop =
      if op.Assigns row.time stop ∧ key' = key then
        some (withRow key columns row (op.pane? key stop))
      else op.pane? key' stop := by
  obtain ⟨late, unwindowed, heq⟩ := addRow_eq key columns op row
  have hmem : stop ∈ (coveringEnds op.period.reach op.every.reach row.time).filter
      (fun stop => !op.isClosed stop) ↔ op.Assigns row.time stop := by
    rw [List.mem_filter, mem_coveringEnds hevery, Assigns]
    simp
  rw [heq, pane?, paneIn_foldl_addToPane ((nodup_coveringEnds hevery row.time).filter _)]
  simp only [hmem]
  rfl

/-- What a pane is to hold: nothing without entries, and else one batch of its key. -/
def PaneHolds (key : SeriesKey) (entries : List Entry) : Option Batch → Prop
  | none => entries = []
  | some b => entries ≠ [] ∧ b.key = key ∧ b.Holds entries

theorem PaneHolds.withRow {key : SeriesKey} {entries : List Entry} {pane : Option Batch} {e : Entry}
    (h : PaneHolds key entries pane) (he : e.WellFormed) :
    PaneHolds key (entries ++ [e]) (some (withRow key e.columns e.row pane)) := by
  refine ⟨by simp, ?_, ?_⟩
  · rw [Windowing.withRow, Batch.key, Batch.name_pushAligned, Batch.tags_pushAligned]
    cases pane with
    | none => rfl
    | some b => exact h.2.1
  · cases pane with
    | none =>
      have hnil : entries = [] := h
      rw [hnil]
      exact Batch.holds_pushAligned_first _ _ _ he
    | some b => exact h.2.2.pushAligned he

theorem foldl_addRow_eq (key : SeriesKey) (columns : List String) (op : Windowing)
    (rows : List Row) : ∃ panes late unwindowed, rows.foldl (addRow key columns) op =
      { op with panes, lateRows := late, unwindowedRows := unwindowed } := by
  induction rows generalizing op with
  | nil => exact ⟨_, _, _, rfl⟩
  | cons row rest ih =>
    obtain ⟨late, unwindowed, heq⟩ := addRow_eq key columns op row
    rw [List.foldl_cons, heq]
    exact ih _

/-- The rows of a batch go, in order, to the panes that they are assigned to. -/
theorem paneHolds_foldl_addRow {op : Windowing} (hevery : 0 < op.every.reach) {key key' : SeriesKey}
    {columns : List String} {rows : List Row} {entries : List Entry} {stop : Instant}
    (hrows : ∀ r ∈ rows, Entry.WellFormed ⟨columns, r⟩)
    (h : PaneHolds key' entries (op.pane? key' stop)) :
    PaneHolds key'
      (entries ++ if key = key' then
        (rows.map fun r => (⟨columns, r⟩ : Entry)).filter fun e => op.Assigns e.time stop
      else [])
      ((rows.foldl (addRow key columns) op).pane? key' stop) := by
  induction rows generalizing op entries with
  | nil => simpa using h
  | cons row rest ih =>
    have hrow := hrows row List.mem_cons_self
    have hrest : ∀ r ∈ rest, Entry.WellFormed ⟨columns, r⟩ :=
      fun r hr => hrows r (List.mem_cons_of_mem _ hr)
    -- placing a row closes no end, so the rest is assigned as before
    have hsame : ∀ t, (addRow key columns op row).Assigns t stop ↔ op.Assigns t stop := by
      obtain ⟨late, unwindowed, heq⟩ := addRow_eq key columns op row
      rw [heq]
      exact fun t => Iff.rfl
    have hevery' : 0 < (addRow key columns op row).every.reach := by
      obtain ⟨late, unwindowed, heq⟩ := addRow_eq key columns op row
      rw [heq]
      exact hevery
    rw [List.foldl_cons]
    have hpane := pane?_addRow hevery key key' columns row stop
    by_cases hassigned : op.Assigns row.time stop ∧ key' = key
    · obtain ⟨hassigns, rfl⟩ := hassigned
      rw [if_pos ⟨hassigns, rfl⟩] at hpane
      have hnext := h.withRow hrow
      rw [← hpane] at hnext
      have hdone := ih hevery' hrest hnext
      simp only [hsame, if_true] at hdone ⊢
      rw [List.map_cons, List.filter_cons, if_pos (by exact decide_eq_true hassigns)]
      simpa using hdone
    · rw [if_neg hassigned] at hpane
      rw [← hpane] at h
      have hdone := ih hevery' hrest h
      simp only [hsame] at hdone
      by_cases hkey : key = key'
      · subst hkey
        have hnot : ¬ op.Assigns row.time stop := fun ha => hassigned ⟨ha, rfl⟩
        rw [if_pos rfl] at hdone ⊢
        rw [List.map_cons, List.filter_cons, if_neg (by exact fun h => hnot (of_decide_eq_true h))]
        exact hdone
      · rw [if_neg hkey] at hdone ⊢
        exact hdone

/-! ## Closing ends -/

/-- `op'` has closed the ends of `low`, the smallest ones of `op`, and kept the panes of the other
ends. -/
structure Evicts (op op' : Windowing) (low : List (Instant × Panes)) : Prop where
  config : ∃ panes c, op' = { op with panes, closedThrough := c }
  entries : op.panes.entries = low ++ op'.panes.entries
  closes : ∀ e ∈ low, op'.isClosed e.1 = true
  keeps : ∀ stop, op.isClosed stop = true → op'.isClosed stop = true
  spares : ∀ stop, op'.isClosed stop = true → op.isClosed stop = true ∨ op'.panes.get? stop = none

namespace Evicts

variable {op op' : Windowing} {low : List (Instant × Panes)}

theorem mem_entries (h : Evicts op op' low) {e : Instant × Panes} (he : e ∈ low) :
    e ∈ op.panes.entries := by
  rw [h.entries]
  exact List.mem_append_left _ he

theorem get?_eq (h : Evicts op op' low) (stop : Instant) :
    op.panes.get? stop = (SortedMap.lookup stop low).or (op'.panes.get? stop) := by
  rw [SortedMap.get?, h.entries, SortedMap.lookup_append]
  rfl

theorem sorted (h : Evicts op op' low) : low.Pairwise (fun a b => compare a.1 b.1 = .lt) := by
  have hsorted := op.panes.sorted
  rw [h.entries] at hsorted
  exact (List.pairwise_append.1 hsorted).1

theorem lookup_eq_none (h : Evicts op op' low) {stop : Instant}
    (hopen : op'.isClosed stop = false) : SortedMap.lookup stop low = none := by
  rw [Option.eq_none_iff_forall_not_mem]
  intro groups hg
  have hclosed := h.closes _ ((SortedMap.lookup_eq_some_iff h.sorted).1 hg)
  rw [hopen] at hclosed
  cases hclosed

/-- Where closed ends have no panes, the panes of the ends that are closed now are gone. -/
theorem pane?_eq (h : Evicts op op' low)
    (hclosed : ∀ key stop, op.isClosed stop = true → op.pane? key stop = none) (key : SeriesKey)
    (stop : Instant) :
    op'.pane? key stop = if op'.isClosed stop then none else op.pane? key stop := by
  have hget := h.get?_eq stop
  cases hc : op'.isClosed stop with
  | false =>
    rw [h.lookup_eq_none hc, Option.none_or] at hget
    rw [if_neg (by simp), pane?, pane?, paneIn, paneIn, hget]
  | true =>
    rw [if_pos rfl]
    -- the end was closed before or has been closed just now
    rcases h.spares stop hc with hbefore | hnone
    · have hpane := hclosed key stop hbefore
      rw [pane?, paneIn, hget] at hpane
      rw [pane?, paneIn]
      cases hlow : SortedMap.lookup stop low with
      | none => rwa [hlow, Option.none_or] at hpane
      | some groups =>
        -- an end is in one of the two parts only
        have hsorted := op.panes.sorted
        rw [h.entries, List.pairwise_append] at hsorted
        cases hrest : op'.panes.get? stop with
        | none => rfl
        | some groups' =>
          have hlt := hsorted.2.2 _ ((SortedMap.lookup_eq_some_iff h.sorted).1 hlow) _
            (SortedMap.get?_eq_some_iff.1 hrest)
          rw [SortedMap.compare_self_eq] at hlt
          cases hlt
    · rw [pane?, paneIn, hnone, Option.bind_none]

/-- Where closed ends have no panes, the closed part has the panes of the ends that are closed
now. -/
theorem lookup_bind_eq (h : Evicts op op' low)
    (hclosed : ∀ key stop, op.isClosed stop = true → op.pane? key stop = none) (key : SeriesKey)
    (stop : Instant) :
    (SortedMap.lookup stop low).bind (·.get? key) =
      if op'.isClosed stop then op.pane? key stop else none := by
  have hget := h.get?_eq stop
  cases hc : op'.isClosed stop with
  | false => rw [h.lookup_eq_none hc, if_neg (by simp), Option.bind_none]
  | true =>
    rw [if_pos rfl, pane?, paneIn, hget]
    cases hlow : SortedMap.lookup stop low with
    | some groups => rw [Option.some_or]
    | none =>
      rcases h.spares stop hc with hbefore | hnone
      · have hpane := hclosed key stop hbefore
        rw [pane?, paneIn, hget, hlow] at hpane
        exact hpane.symm
      · rw [hnone]
        rfl

end Evicts

theorem filter_append_filter_not {α : Type} {p : α → Bool} {l : List α}
    (h : l.Pairwise fun a b => p b = true → p a = true) :
    l.filter p ++ l.filter (fun a => !p a) = l := by
  induction l with
  | nil => rfl
  | cons a rest ih =>
    obtain ⟨hhead, htail⟩ := List.pairwise_cons.1 h
    by_cases ha : p a = true
    · rw [List.filter_cons_of_pos ha, List.filter_cons_of_neg (by simp [ha]), List.cons_append,
        ih htail]
    · have hrest : rest.filter p = [] := by
        rw [List.filter_eq_nil_iff]
        exact fun b hb hpb => ha (hhead b hb hpb)
      rw [List.filter_cons_of_neg ha, List.filter_cons_of_pos (by simpa using ha), hrest,
        List.nil_append]
      refine congrArg (a :: ·) (List.filter_eq_self.2 fun b hb => ?_)
      have hb' : ¬ p b = true := fun hpb => ha (hhead b hb hpb)
      simpa using hb'

theorem lt_of_mem_entries {l : List (Instant × Panes)}
    (h : l.Pairwise (fun a b => compare a.1 b.1 = .lt)) :
    l.Pairwise (fun a b => a.1 < b.1) :=
  h.imp fun hab => compare_lt_iff_lt.1 hab

theorem evicts_onWatermark (op : Windowing) (t : Instant) :
    Evicts op (op.onWatermark t).1 (op.panes.filter fun stop _ => decide (stop ≤ t)).entries where
  config := ⟨_, _, rfl⟩
  entries := by
    refine (filter_append_filter_not ?_).symm
    refine (lt_of_mem_entries op.panes.sorted).imp fun hab hb => ?_
    simp only [decide_eq_true_eq] at *
    exact le_trans hab.le hb
  closes := by
    intro e he
    refine (isClosed_closeThrough _ t e.1).2 (.inr ?_)
    exact of_decide_eq_true (List.mem_filter.1 he).2
  keeps stop h := (isClosed_closeThrough _ t stop).2 (.inl h)
  spares := by
    intro stop h
    refine ((isClosed_closeThrough _ t stop).1 h).imp id fun hle => ?_
    show (op.panes.filter fun stop _ => !decide (stop ≤ t)).get? stop = none
    rw [SortedMap.get?_filter]
    cases op.panes.get? stop <;> simp [Option.filter, hle]

theorem enforceHorizon_eq (op : Windowing) {horizon : Nat} (h : op.horizon = some horizon) :
    op.enforceHorizon =
      ((op.panes.entries.take (op.panes.size - horizon)).foldl (fun op e => op.closeThrough e.1)
          { op with panes := op.panes.keepLast horizon },
        op.flushAll (op.panes.entries.take (op.panes.size - horizon))) := by
  cases op
  subst h
  rfl

theorem evicts_enforceHorizon (op : Windowing) {horizon : Nat} (h : op.horizon = some horizon) :
    Evicts op op.enforceHorizon.1 (op.panes.entries.take (op.panes.size - horizon)) := by
  set low := op.panes.entries.take (op.panes.size - horizon) with hlow
  set kept : Windowing := { op with panes := op.panes.keepLast horizon } with hkept
  have hop : op.enforceHorizon.1 = low.foldl (fun op e => op.closeThrough e.1) kept := by
    rw [enforceHorizon_eq op h]
  obtain ⟨c, hc⟩ := foldl_closeThrough kept low
  have hpanes : op.enforceHorizon.1.panes = op.panes.keepLast horizon := by rw [hop, hc]
  have hentries : op.panes.entries = low ++ op.enforceHorizon.1.panes.entries := by
    rw [hpanes]
    exact (List.take_append_drop _ _).symm
  have hclosed : ∀ stop, op.enforceHorizon.1.isClosed stop = true ↔
      op.isClosed stop = true ∨ ∃ e ∈ low, stop ≤ e.1 := by
    intro stop
    rw [hop, isClosed_foldl_closeThrough]
    rfl
  refine ⟨⟨_, c, hop.trans hc⟩, hentries, ?_, ?_, ?_⟩
  · exact fun e he => (hclosed e.1).2 (.inr ⟨e, he, le_refl _⟩)
  · exact fun stop hstop => (hclosed stop).2 (.inl hstop)
  · intro stop hstop
    refine ((hclosed stop).1 hstop).imp id ?_
    rintro ⟨e, he, hle⟩
    -- an end that is kept comes after every end that is closed
    have hlt := lt_of_mem_entries op.panes.sorted
    rw [hentries, List.pairwise_append] at hlt
    cases hget : op.enforceHorizon.1.panes.get? stop with
    | none => rfl
    | some groups =>
      have hmem := SortedMap.get?_eq_some_iff.1 hget
      exact absurd (hlt.2.2 e he _ hmem) (not_lt.2 hle)

end SeriesPipeline.Windowing
