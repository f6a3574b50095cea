import SeriesPipeline.Proofs.Windowing.Panes

/-!
# Placement of rows

Over a whole run of batches and watermarks, a windowing without a bucket puts every row exactly once
under each window end that it is assigned to. What it has emitted and what it still buffers under a
group and an end is one batch that holds the assigned rows, or none when no row was assigned; the
ends emitted for a group increase.
-/

namespace SeriesPipeline.Windowing

/-- Takes a request; the ports of batches do not matter. -/
def take (op : Windowing) : Request → Windowing × List Batch
  | .batch _ b => op.onBatch b
  | .watermark t => op.onWatermark t
  | .close => (op.onClose, [])

/-- The rows that a request assigns to a group and a window end. -/
def assignedBy (op : Windowing) (key : SeriesKey) (stop : Instant) : Request → List Entry
  | .batch _ b =>
    if op.grouping.keyFor b = key then b.entries.filter fun e => op.Assigns e.time stop else []
  | .watermark _ => []
  | .close => []

/-- The rows that a run assigns to a group and a window end, in order of arrival. Which ends are
open is decided by the state that each request finds. -/
def assigned (op : Windowing) (key : SeriesKey) (stop : Instant) : List Request → List Entry
  | [] => []
  | c :: rest => op.assignedBy key stop c ++ assigned (op.take c).1 key stop rest

/-- The window of a length that ends at `stop`; it starts at the least instant at the earliest. -/
def windowAt (period : Span) (stop : Instant) : Window := ⟨stop.before period, stop⟩

/-- The batches emitted for a group and a window end. -/
def emittedFor (period : Span) (key : SeriesKey) (stop : Instant) (out : List Batch) : List Batch :=
  out.filter fun b => b.key = key ∧ b.window = some (windowAt period stop)

/-- What is to be emitted under a group and an end: nothing without entries, and else one batch. -/
def EmittedOnce (entries : List Entry) (out : List Batch) : Prop :=
  (entries = [] ∧ out = []) ∨ (entries ≠ [] ∧ ∃ b, out = [b] ∧ b.HoldsInOrder entries)

/-- `b` comes after `a`: of one group, the window of `b` ends later. -/
def EndsLater (a b : Batch) : Prop :=
  a.key = b.key → ∀ v ∈ a.window, ∀ w ∈ b.window, v.stop < w.stop

/-- Of the rows assigned so far, those of open ends are in panes, and those of closed ends have been
emitted. -/
structure Placed (period : Span) (op : Windowing) (rows : SeriesKey → Instant → List Entry)
    (out : List Batch) : Prop where
  period_eq : op.period = period
  unbucketed : op.grouping.bucket = none
  every_pos : 0 < op.every.reach
  opened : ∀ key stop, op.isClosed stop = false →
    emittedFor period key stop out = [] ∧ PaneHolds key (rows key stop) (op.pane? key stop)
  closed : ∀ key stop, op.isClosed stop = true →
    op.pane? key stop = none ∧ EmittedOnce (rows key stop) (emittedFor period key stop out)
  window : ∀ b ∈ out, ∃ stop, op.isClosed stop = true ∧ b.window = some (windowAt period stop)
  increasing : out.Pairwise EndsLater

/-! ## Emitted panes -/

/-- A pane as it is emitted. -/
def finished (period : Span) (stop : Instant) (pane : Batch) : Batch :=
  { pane.sortRows with window := some (windowAt period stop) }

theorem PaneHolds.finished {key : SeriesKey} {entries : List Entry} {pane : Option Batch}
    (h : PaneHolds key entries pane) (period : Span) (stop : Instant) :
    EmittedOnce entries (pane.map (finished period stop)).toList := by
  cases pane with
  | none => exact .inl ⟨h, rfl⟩
  | some b =>
    obtain ⟨sorted, hsorted, hholds⟩ := h.2.2.sortRows
    exact .inr ⟨h.1, _, rfl, sorted, hsorted, hholds.distinct, hholds.columns, hholds.rows⟩

theorem PaneHolds.eq_none {key : SeriesKey} {pane : Option Batch} (h : PaneHolds key [] pane) :
    pane = none := by
  cases pane with
  | none => rfl
  | some b => exact absurd rfl h.1

theorem flush_eq {op : Windowing} (h : op.grouping.bucket = none) (stop : Instant)
    (groups : Panes) : op.flush stop groups = groups.values.map (finished op.period stop) := by
  rw [flush]
  simp only [h]
  exact List.map_eq_flatMap.symm

/-- Every pane lies under its own key. -/
def Keyed (ends : List (Instant × Panes)) : Prop :=
  ∀ e ∈ ends, ∀ g ∈ e.2.entries, g.2.key = g.1

theorem emittedFor_flush {op : Windowing} (h : op.grouping.bucket = none) {groups : Panes}
    (hkeyed : ∀ g ∈ groups.entries, g.2.key = g.1) (key : SeriesKey) (stop stop' : Instant) :
    emittedFor op.period key stop (op.flush stop' groups) =
      if stop' = stop then ((groups.get? key).map (finished op.period stop)).toList else [] := by
  have hfilter : ∀ g ∈ groups.entries,
      (decide ((finished op.period stop' g.2).key = key ∧
        (finished op.period stop' g.2).window = some (windowAt op.period stop))) =
      (decide (g.1 = key) && decide (stop' = stop)) := by
    intro g hg
    have hkey : (finished op.period stop' g.2).key = g.1 := hkeyed g hg
    have hwindow : (finished op.period stop' g.2).window = some (windowAt op.period stop) ↔
        stop' = stop := by
      rw [finished, Option.some.injEq, windowAt, windowAt, Window.mk.injEq]
      exact ⟨fun h => h.2, fun h => h ▸ ⟨rfl, rfl⟩⟩
    simp only [hkey, hwindow, Bool.decide_and]
  rw [emittedFor, flush_eq h, SortedMap.values, List.map_map, List.filter_map]
  rw [List.filter_congr (q := fun g => decide (g.1 = key) && decide (stop' = stop)) hfilter]
  by_cases hstop : stop' = stop
  · subst hstop
    simp only [decide_true, Bool.and_true, if_true]
    rw [SortedMap.filter_key_eq groups.sorted, ← SortedMap.get?]
    cases groups.get? key <;> rfl
  · simp [hstop]

/-- Of the panes of some ends, the one of the group and the end is emitted. -/
theorem emittedFor_flushAll {op : Windowing} (h : op.grouping.bucket = none)
    {ends : List (Instant × Panes)} (hkeyed : Keyed ends)
    (hends : ends.Pairwise (fun a b => compare a.1 b.1 = .lt)) (key : SeriesKey) (stop : Instant) :
    emittedFor op.period key stop (op.flushAll ends) =
      (((SortedMap.lookup stop ends).bind (·.get? key)).map (finished op.period stop)).toList := by
  have heach : ends.flatMap (fun e => emittedFor op.period key stop (op.flush e.1 e.2)) =
      (ends.filter fun e => e.1 = stop).flatMap
        fun e => ((e.2.get? key).map (finished op.period stop)).toList := by
    clear hends
    induction ends with
    | nil => rfl
    | cons e rest ih =>
      rw [List.flatMap_cons, emittedFor_flush h (hkeyed e List.mem_cons_self),
        ih fun e he => hkeyed e (List.mem_cons_of_mem _ he), List.filter_cons]
      by_cases he : e.1 = stop <;> simp [he]
  rw [emittedFor, flushAll, List.filter_flatMap]
  show ends.flatMap (fun e => emittedFor op.period key stop (op.flush e.1 e.2)) = _
  rw [heach, SortedMap.filter_key_eq hends]
  cases SortedMap.lookup stop ends with
  | none => rfl
  | some groups => simp

theorem mem_flushAll {op : Windowing} (h : op.grouping.bucket = none)
    {ends : List (Instant × Panes)} {b : Batch} (hb : b ∈ op.flushAll ends) :
    ∃ e ∈ ends, ∃ g ∈ e.2.entries, b = finished op.period e.1 g.2 := by
  obtain ⟨e, he, hbe⟩ := List.mem_flatMap.1 hb
  rw [flush_eq h, SortedMap.values, List.map_map, List.mem_map] at hbe
  obtain ⟨g, hg, rfl⟩ := hbe
  exact ⟨e, he, g, hg, rfl⟩

/-- The batches of a flush come in order of their ends, and no two of one end have the same key. -/
theorem increasing_flushAll {op : Windowing} (h : op.grouping.bucket = none)
    {ends : List (Instant × Panes)} (hkeyed : Keyed ends)
    (hends : ends.Pairwise (fun a b => compare a.1 b.1 = .lt)) :
    (op.flushAll ends).Pairwise EndsLater := by
  have hstop : ∀ e : Instant × Panes, ∀ b ∈ op.flush e.1 e.2, ∀ w ∈ b.window, w.stop = e.1 := by
    intro e b hb w hw
    rw [flush_eq h] at hb
    obtain ⟨pane, -, rfl⟩ := List.mem_map.1 hb
    cases hw
    rfl
  rw [flushAll, List.pairwise_flatMap]
  constructor
  · -- batches of one end come in order of their groups
    intro e he
    rw [flush_eq h, SortedMap.values, List.map_map, List.pairwise_map]
    refine List.Pairwise.imp_of_mem ?_ e.2.sorted
    intro g g' hg hg' hlt heq
    have hkey : g.1 = g'.1 := by
      rw [← hkeyed e he g hg, ← hkeyed e he g' hg']
      exact heq
    rw [hkey, SortedMap.compare_self_eq] at hlt
    cases hlt
  · refine (lt_of_mem_entries hends).imp fun hlt a ha b hb _ v hv w hw => ?_
    rw [hstop _ a ha v hv, hstop _ b hb w hw]
    exact hlt

/-! ## One request -/

namespace Placed

variable {period : Span} {op op' : Windowing} {rows : SeriesKey → Instant → List Entry}
  {out : List Batch}

theorem pane?_eq_none (h : Placed period op rows out) (key : SeriesKey) (stop : Instant)
    (hc : op.isClosed stop = true) : op.pane? key stop = none :=
  (h.closed key stop hc).1

/-- A pane lies under an open end. -/
theorem isClosed_of_mem (h : Placed period op rows out) {e : Instant × Panes}
    (he : e ∈ op.panes.entries) {g : SeriesKey × Batch} (hg : g ∈ e.2.entries) :
    op.isClosed e.1 = false ∧ op.pane? g.1 e.1 = some g.2 := by
  have hpane : op.pane? g.1 e.1 = some g.2 := by
    have hgroups : op.panes.get? e.1 = some e.2 := SortedMap.get?_eq_some_iff.2 he
    have hbatch : e.2.get? g.1 = some g.2 := SortedMap.get?_eq_some_iff.2 hg
    rw [pane?, paneIn, hgroups, Option.bind_some, hbatch]
  refine ⟨?_, hpane⟩
  cases hc : op.isClosed e.1 with
  | false => rfl
  | true =>
    rw [h.pane?_eq_none g.1 e.1 hc] at hpane
    cases hpane

theorem keyed (h : Placed period op rows out) : Keyed op.panes.entries := by
  intro e he g hg
  obtain ⟨hopen, hpane⟩ := h.isClosed_of_mem he hg
  have hold := (h.opened g.1 e.1 hopen).2
  rw [hpane] at hold
  exact hold.2.1

/-- Placing rows moves no batch, and a closed end is assigned nothing. -/
theorem addRows (h : Placed period op rows out) (port : Nat) {b : Batch} (hb : b.Consistent) :
    Placed period (b.rows.foldl (addRow (op.grouping.keyFor b) b.columns) op)
      (fun key stop => rows key stop ++ op.assignedBy key stop (.batch port b)) out := by
  have hpane : ∀ key stop entries, PaneHolds key entries (op.pane? key stop) →
      PaneHolds key (entries ++ op.assignedBy key stop (.batch port b))
        ((b.rows.foldl (addRow (op.grouping.keyFor b) b.columns) op).pane? key stop) :=
    fun key stop entries hold => paneHolds_foldl_addRow h.every_pos
      (fun r hr => hb.wellFormed _ (List.mem_map_of_mem hr)) hold
  -- a row is assigned to open ends only
  have hnothing : ∀ key stop, op.isClosed stop = true →
      op.assignedBy key stop (.batch port b) = [] := by
    intro key stop hclosed
    have hnot : ∀ t, ¬ op.Assigns t stop := by
      intro t ha
      have hfalse := hclosed.symm.trans ha.2
      cases hfalse
    rw [assignedBy]
    split
    · rw [List.filter_eq_nil_iff]
      exact fun e _ he => hnot _ (of_decide_eq_true he)
    · rfl
  obtain ⟨panes, late, unwindowed, heq⟩ :=
    foldl_addRow_eq (op.grouping.keyFor b) b.columns op b.rows
  rw [heq] at hpane ⊢
  refine ⟨h.period_eq, h.unbucketed, h.every_pos, ?_, ?_, h.window, h.increasing⟩
  · intro key stop hopen
    obtain ⟨hout, hold⟩ := h.opened key stop hopen
    exact ⟨hout, hpane key stop _ hold⟩
  · intro key stop hclosed
    obtain ⟨hnone, honce⟩ := h.closed key stop hclosed
    have hempty := hpane key stop [] (by rw [hnone]; exact rfl)
    rw [hnothing key stop hclosed, List.append_nil] at hempty ⊢
    exact ⟨hempty.eq_none, honce⟩

section Evicts

variable (h : Placed period op rows out) {low : List (Instant × Panes)}
  (hevicts : Evicts op op' low)
include h hevicts

theorem keyed_of_evicts : Keyed low := fun e he => h.keyed e (hevicts.mem_entries he)

/-- An end that is closed now and had a pane has that pane emitted. -/
theorem emittedFor_append_flushAll (key : SeriesKey) (stop : Instant) :
    emittedFor period key stop (out ++ op.flushAll low) = emittedFor period key stop out ++
      ((if op'.isClosed stop then op.pane? key stop else none).map
        (finished period stop)).toList := by
  have hkeyed := h.keyed_of_evicts hevicts
  have hflush := emittedFor_flushAll h.unbucketed hkeyed hevicts.sorted key stop
  rw [hevicts.lookup_bind_eq h.pane?_eq_none, h.period_eq] at hflush
  rw [← hflush]
  exact List.filter_append _ _

/-- Closing the smallest ends emits the panes of those ends, each once. -/
theorem evicts : Placed period op' rows (out ++ op.flushAll low) := by
  have hpane := hevicts.pane?_eq h.pane?_eq_none
  have hnew := h.emittedFor_append_flushAll hevicts
  obtain ⟨panes, c, hconfig⟩ := hevicts.config
  refine ⟨by rw [hconfig]; exact h.period_eq, by rw [hconfig]; exact h.unbucketed,
    by rw [hconfig]; exact h.every_pos, ?_, ?_, ?_, ?_⟩
  · intro key stop hopen
    have hbefore : op.isClosed stop = false := by
      rw [← Bool.not_eq_true] at hopen ⊢
      exact fun hc => hopen (hevicts.keeps stop hc)
    obtain ⟨hout, hold⟩ := h.opened key stop hbefore
    rw [hnew, hpane, hopen, hout]
    exact ⟨rfl, hold⟩
  · intro key stop hclosed
    rw [hnew, hpane, hclosed, if_pos rfl, if_pos rfl]
    refine ⟨rfl, ?_⟩
    cases hbefore : op.isClosed stop with
    | true =>
      -- it was closed before, so nothing is left to emit
      rw [h.pane?_eq_none key stop hbefore, Option.map_none, Option.toList_none, List.append_nil]
      exact (h.closed key stop hbefore).2
    | false =>
      obtain ⟨hout, hold⟩ := h.opened key stop hbefore
      rw [hout, List.nil_append]
      exact hold.finished period stop
  · intro b hb
    rcases List.mem_append.1 hb with hb | hb
    · obtain ⟨stop, hclosed, hw⟩ := h.window b hb
      exact ⟨stop, hevicts.keeps stop hclosed, hw⟩
    · obtain ⟨e, he, g, hg, rfl⟩ := mem_flushAll h.unbucketed hb
      exact ⟨e.1, hevicts.closes e he, by rw [finished, h.period_eq]⟩
  · refine List.pairwise_append.2 ⟨h.increasing, ?_, ?_⟩
    · exact increasing_flushAll h.unbucketed (h.keyed_of_evicts hevicts) hevicts.sorted
    · -- what was emitted before ends at a closed end, and a pane lies under an open one
      intro a ha b hb _ v hv w hw
      obtain ⟨stop, hclosed, ha⟩ := h.window a ha
      obtain ⟨e, he, g, hg, rfl⟩ := mem_flushAll h.unbucketed hb
      rw [ha] at hv
      cases hv
      cases hw
      exact lt_of_isClosed hclosed (h.isClosed_of_mem (hevicts.mem_entries he) hg).1

end Evicts

theorem enforceHorizon (h : Placed period op rows out) :
    Placed period op.enforceHorizon.1 rows (out ++ op.enforceHorizon.2) := by
  cases hh : op.horizon with
  | none =>
    have hnone : op.enforceHorizon = (op, []) := by
      rw [Windowing.enforceHorizon, hh]
    rw [hnone, List.append_nil]
    exact h
  | some horizon =>
    have hflush : op.enforceHorizon.2 =
        op.flushAll (op.panes.entries.take (op.panes.size - horizon)) := by
      rw [enforceHorizon_eq op hh]
    rw [hflush]
    exact h.evicts (evicts_enforceHorizon op hh)

/-- A batch or a watermark keeps every row in its place. -/
theorem take (h : Placed period op rows out) {c : Request}
    (hbatch : ∀ port b, c = .batch port b → b.Consistent) (hclose : c ≠ .close) :
    Placed period (op.take c).1 (fun key stop => rows key stop ++ op.assignedBy key stop c)
      (out ++ (op.take c).2) := by
  cases c with
  | batch port b => exact (h.addRows port (hbatch port b rfl)).enforceHorizon
  | watermark t =>
    simp only [assignedBy, List.append_nil]
    exact h.evicts (evicts_onWatermark op t)
  | close => exact absurd rfl hclose

theorem run {requests : List Request} (h : Placed period op rows out)
    (hbatches : ∀ port b, .batch port b ∈ requests → b.Consistent) (hclose : .close ∉ requests) :
    Placed period (Request.run Windowing.take op requests).1
      (fun key stop => rows key stop ++ op.assigned key stop requests)
      (out ++ (Request.run Windowing.take op requests).2) := by
  -- what is assigned depends on the state, which the first request changes
  induction requests generalizing op rows out with
  | nil =>
    simp only [assigned, Request.run_nil, List.append_nil]
    exact h
  | cons c rest ih =>
    have hstep := h.take (c := c)
      (fun port b hc => hbatches port b (hc ▸ List.mem_cons_self))
      (fun hc => hclose (hc ▸ List.mem_cons_self))
    have hdone := ih hstep (fun port b hb => hbatches port b (List.mem_cons_of_mem _ hb))
      (fun hc => hclose (List.mem_cons_of_mem _ hc))
    simp only [List.append_assoc] at hdone
    exact hdone

end Placed

/-! ## Whole runs -/

theorem placed_new (period every : Span) (grouping : Grouping) (horizon : Option Nat)
    (hevery : 1 ≤ every.nanos) (hbucket : grouping.bucket = none) :
    Placed period (new period every grouping horizon) (fun _ _ => []) [] where
  period_eq := rfl
  unbucketed := hbucket
  every_pos := by
    show (0 : Int) < min (every.nanos : Int) Span.longest
    have hlongest : Span.longest = 9223372036854775807 := by decide
    omega
  opened _ _ _ := ⟨rfl, rfl⟩
  closed _ _ h := by cases h
  window _ h := by cases h
  increasing := .nil

/-- Each group has one batch under each window end that some row was assigned to, either emitted or
still buffered, and it holds exactly the rows assigned. -/
theorem run_places_rows_once (period every : Span) (grouping : Grouping) (horizon : Option Nat)
    (requests : List Request) (hevery : 1 ≤ every.nanos) (hbucket : grouping.bucket = none)
    (hbatches : ∀ port b, .batch port b ∈ requests → b.checkConsistency = .ok ())
    (hclose : .close ∉ requests) :
    let start := new period every grouping horizon
    let op := (Request.run take start requests).1
    let out := (Request.run take start requests).2
    (∀ key stop,
      let rows := start.assigned key stop requests
      (rows = [] → emittedFor period key stop out = [] ∧ op.pane? key stop = none) ∧
      (rows ≠ [] →
        (∃ b, emittedFor period key stop out = [b] ∧ op.pane? key stop = none ∧
          b.HoldsInOrder rows) ∨
        (∃ b, emittedFor period key stop out = [] ∧ op.pane? key stop = some b ∧
          b.key = key ∧ b.Holds rows))) ∧
    (∀ b ∈ out, ∃ stop, b.window = some (windowAt period stop)) ∧
    out.Pairwise EndsLater ∧
    (∀ b ∈ out, b.rows ≠ [] ∧ b.rows.Pairwise fun r s => r.time ≤ s.time) := by
  intro start op out
  have h : Placed period op (fun key stop => start.assigned key stop requests) out := by
    have hnew := placed_new period every grouping horizon hevery hbucket
    have hrun := hnew.run
      (fun port b hb => Batch.checkConsistency_eq_ok_iff.1 (hbatches port b hb)) hclose
    simpa only [List.nil_append] using hrun
  refine ⟨?_, ?_, h.increasing, ?_⟩
  · -- an open end has its batch in a pane, a closed one among those emitted
    intro key stop rows
    cases hc : op.isClosed stop with
    | false =>
      obtain ⟨hout, hold⟩ := h.opened key stop hc
      cases hpane : op.pane? key stop with
      | none =>
        rw [hpane] at hold
        exact ⟨fun _ => ⟨hout, rfl⟩, fun hne => absurd hold hne⟩
      | some b =>
        rw [hpane] at hold
        exact ⟨fun hnil => absurd hnil hold.1, fun _ => .inr ⟨b, hout, rfl, hold.2⟩⟩
    | true =>
      obtain ⟨hnone, ⟨hnil, hout⟩ | ⟨hne, b, hout, hb⟩⟩ := h.closed key stop hc
      · exact ⟨fun _ => ⟨hout, hnone⟩, fun hne => absurd hnil hne⟩
      · exact ⟨fun hnil => absurd hnil hne, fun _ => .inl ⟨b, hout, hnone, hb⟩⟩
  · intro b hb
    obtain ⟨stop, -, hw⟩ := h.window b hb
    exact ⟨stop, hw⟩
  · intro b hb
    obtain ⟨stop, hc, hw⟩ := h.window b hb
    have hmem : b ∈ emittedFor period b.key stop out :=
      List.mem_filter.2 ⟨hb, decide_eq_true ⟨rfl, hw⟩⟩
    obtain ⟨-, ⟨-, hout⟩ | ⟨hne, b', hout, hb'⟩⟩ := h.closed b.key stop hc
    · rw [hout] at hmem
      cases hmem
    · rw [hout, List.mem_singleton] at hmem
      subst hmem
      refine ⟨fun hrows => hne ?_, hb'.ordered⟩
      have hlen := hb'.length_eq
      rw [hrows] at hlen
      exact List.eq_nil_of_length_eq_zero hlen.symm

/-- A row at 7 under windows of length 10 that end at the multiples of 5: after a watermark at 10
the window that ends at 10 has been emitted, and the one that ends at 15 is still buffered. -/
theorem run_places_rows_once_overlapping :
    let start := new ⟨10⟩ ⟨5⟩ Grouping.empty none
    let requests := [.batch 0 ⟨"m", ∅, ["v"], [⟨⟨7⟩, [.int 1]⟩], none⟩, .watermark ⟨10⟩]
    let rows : List Entry := [⟨["v"], ⟨⟨7⟩, [.int 1]⟩⟩]
    (∃ b, emittedFor ⟨10⟩ ⟨"m", ∅⟩ ⟨10⟩ (Request.run take start requests).2 = [b] ∧
      b.HoldsInOrder rows) ∧
    (∃ b, (Request.run take start requests).1.pane? ⟨"m", ∅⟩ ⟨15⟩ = some b ∧ b.Holds rows) := by
  intro start requests rows
  have hbatches : ∀ port b, .batch port b ∈ requests → b.checkConsistency = .ok () := by
    intro port b hb
    rcases List.mem_cons.1 hb with hb | hb
    · cases hb
      rfl
    · cases List.mem_singleton.1 hb
  have hclose : .close ∉ requests := by simp [requests]
  have hrun := (run_places_rows_once ⟨10⟩ ⟨5⟩ Grouping.empty none requests (by decide) rfl
    hbatches hclose).1
  have h10 : start.assigned ⟨"m", ∅⟩ ⟨10⟩ requests = rows := by with_unfolding_all rfl
  have h15 : start.assigned ⟨"m", ∅⟩ ⟨15⟩ requests = rows := by with_unfolding_all rfl
  have hgone : (Request.run take start requests).1.pane? ⟨"m", ∅⟩ ⟨10⟩ = none :=
    Option.isNone_iff_eq_none.1 (by decide +kernel)
  have hkept : ((Request.run take start requests).1.pane? ⟨"m", ∅⟩ ⟨15⟩).isSome := by
    decide +kernel
  have hne : rows ≠ [] := List.cons_ne_nil _ _
  constructor
  · obtain ⟨b, hb, -, hrows⟩ | ⟨b, -, hb, -⟩ := (hrun ⟨"m", ∅⟩ ⟨10⟩).2 (h10 ▸ hne)
    · exact ⟨b, hb, h10 ▸ hrows⟩
    · exact absurd (hgone.symm.trans hb) (by simp)
  · obtain ⟨b, -, hb, -⟩ | ⟨b, -, hb, -, hrows⟩ := (hrun ⟨"m", ∅⟩ ⟨15⟩).2 (h15 ▸ hne)
    · rw [show (Request.run take start requests).1.pane? _ _ = none from hb] at hkept
      cases hkept
    · exact ⟨b, hb, h15 ▸ hrows⟩

end SeriesPipeline.Windowing
