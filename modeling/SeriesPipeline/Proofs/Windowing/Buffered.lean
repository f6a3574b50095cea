import SeriesPipeline.Proofs.Windowing.Placement

/-!
# Buffered panes

A property of panes and their ends holds of every pane of a windowing if it holds of the pane that a
row is added to. What a windowing emits comes of such panes.
-/

namespace SeriesPipeline.Windowing

/-- What is emitted of a pane: the whole of it, or its buckets. -/
def pieces (op : Windowing) (stop : Instant) (pane : Batch) : List Batch :=
  match op.grouping.bucket with
  | none => [finished op.period stop pane]
  | some bucket => splitBuckets bucket pane.sortRows

/-- Every pane has the property, together with its end. -/
def AllPanes (P : Instant → Batch → Prop) (panes : SortedMap Instant Panes) : Prop :=
  panes.All fun stop groups => groups.All fun _ pane => P stop pane

variable {P : Instant → Batch → Prop} {panes : SortedMap Instant Panes} {op op' : Windowing}
  {key : SeriesKey} {columns : List String} {b : Batch}

theorem allPanes_empty : AllPanes P ∅ := SortedMap.all_empty

/-- Adding a row to a pane, or to no pane, gives a pane with the property. -/
def Extends (P : Instant → Batch → Prop) (key : SeriesKey) (columns : List String) (row : Row)
    (stop : Instant) : Prop :=
  ∀ pane : Option Batch, (∀ b ∈ pane, P stop b) → P stop (withRow key columns row pane)

theorem AllPanes.addToPane {row : Row} {stop : Instant} (h : AllPanes P panes)
    (hnew : Extends P key columns row stop) :
    AllPanes P (addToPane panes key columns row stop) := by
  have hgroups : ((panes.get? stop).getD ∅).All fun _ pane => P stop pane :=
    SortedMap.All.getD h SortedMap.all_empty
  exact SortedMap.All.insert h (hgroups.insert (hnew _ fun b hb => hgroups.of_get? hb))

theorem AllPanes.foldl_addToPane {row : Row} {stops : List Instant} (h : AllPanes P panes)
    (hnew : ∀ stop ∈ stops, Extends P key columns row stop) :
    AllPanes P (stops.foldl (fun panes stop => Windowing.addToPane panes key columns row stop)
      panes) := by
  induction stops generalizing panes with
  | nil => exact h
  | cons stop rest ih =>
    exact ih (h.addToPane (hnew stop List.mem_cons_self))
      fun stop' hstop' => hnew stop' (List.mem_cons_of_mem _ hstop')

/-- A row is added to panes of ends that cover it and are not closed. -/
theorem AllPanes.foldl_addRow {rows : List Row} (h : AllPanes P op.panes)
    (hnew : ∀ row ∈ rows, ∀ stop ∈ coveringEnds op.period.reach op.every.reach row.time,
      op.isClosed stop = false → Extends P key columns row stop) :
    AllPanes P (rows.foldl (addRow key columns) op).panes := by
  induction rows generalizing op with
  | nil => exact h
  | cons row rest ih =>
    obtain ⟨late, unwindowed, heq⟩ := addRow_eq key columns op row
    rw [List.foldl_cons, heq]
    refine ih (h.foldl_addToPane fun stop hstop => ?_)
      fun row' hrow' => hnew row' (List.mem_cons_of_mem _ hrow')
    obtain ⟨hcovers, hopen⟩ := List.mem_filter.1 hstop
    exact hnew row List.mem_cons_self stop hcovers (by simpa using hopen)

theorem exists_pane_of_mem_flushAll {ends : List (Instant × Panes)} (hb : b ∈ op.flushAll ends) :
    ∃ e ∈ ends, ∃ g ∈ e.2.entries, b ∈ op.pieces e.1 g.2 := by
  obtain ⟨e, he, hbe⟩ := List.mem_flatMap.1 hb
  obtain ⟨pane, hpane, hb⟩ := List.mem_flatMap.1 hbe
  obtain ⟨g, hg, rfl⟩ := List.mem_map.1 hpane
  exact ⟨e, he, g, hg, hb⟩

/-- Closing ends leaves some of the panes and emits the others. -/
theorem AllPanes.evicts {low : List (Instant × Panes)} (h : AllPanes P op.panes)
    (hevicts : Evicts op op' low) :
    AllPanes P op'.panes ∧ ∀ b ∈ op.flushAll low, ∃ stop pane, P stop pane ∧
      b ∈ op.pieces stop pane := by
  constructor
  · intro e he
    refine h e ?_
    rw [hevicts.entries]
    exact List.mem_append_right _ he
  · intro b hb
    obtain ⟨e, he, g, hg, hb⟩ := exists_pane_of_mem_flushAll hb
    exact ⟨e.1, g.2, h e (hevicts.mem_entries he) g hg, hb⟩

theorem AllPanes.enforceHorizon (h : AllPanes P op.panes) :
    AllPanes P op.enforceHorizon.1.panes ∧ ∀ b ∈ op.enforceHorizon.2, ∃ stop pane,
      P stop pane ∧ b ∈ op.pieces stop pane := by
  cases hhorizon : op.horizon with
  | none =>
    rw [Windowing.enforceHorizon, hhorizon]
    exact ⟨h, fun _ hb => absurd hb List.not_mem_nil⟩
  | some horizon =>
    have hkept := h.evicts (evicts_enforceHorizon op hhorizon)
    rw [enforceHorizon_eq op hhorizon] at hkept ⊢
    exact hkept

theorem AllPanes.onBatch (h : AllPanes P op.panes)
    (hnew : ∀ row ∈ b.rows, ∀ stop ∈ coveringEnds op.period.reach op.every.reach row.time,
      op.isClosed stop = false → Extends P (op.grouping.keyFor b) b.columns row stop) :
    AllPanes P (op.onBatch b).1.panes ∧ ∀ b' ∈ (op.onBatch b).2, ∃ stop pane, P stop pane ∧
      b' ∈ op.pieces stop pane := by
  have hkept := (h.foldl_addRow hnew).enforceHorizon
  obtain ⟨panes, late, unwindowed, heq⟩ :=
    foldl_addRow_eq (op.grouping.keyFor b) b.columns op b.rows
  rw [heq] at hkept
  rw [Windowing.onBatch, heq]
  exact hkept

theorem AllPanes.onWatermark (h : AllPanes P op.panes) (t : Instant) :
    AllPanes P (op.onWatermark t).1.panes ∧ ∀ b ∈ (op.onWatermark t).2, ∃ stop pane,
      P stop pane ∧ b ∈ op.pieces stop pane :=
  h.evicts (evicts_onWatermark op t)

/-- The panes that a watermark leaves end after it. -/
theorem allPanes_onWatermark (op : Windowing) (t : Instant) :
    AllPanes (fun stop _ => t < stop) (op.onWatermark t).1.panes := by
  intro e he _ _
  have hnot := (List.mem_filter.1 he).2
  exact not_le.1 fun hle => by simp [hle] at hnot

/-! ## What stays -/

/-- The settings of a windowing stay, and closed ends stay closed. -/
structure Advances (op op' : Windowing) : Prop where
  period : op'.period = op.period
  every : op'.every = op.every
  grouping : op'.grouping = op.grouping
  closed : ∀ stop, op.isClosed stop = true → op'.isClosed stop = true

theorem Advances.refl (op : Windowing) : Advances op op := ⟨rfl, rfl, rfl, fun _ h => h⟩

theorem Advances.trans {op'' : Windowing} (h : Advances op op') (h' : Advances op' op'') :
    Advances op op'' :=
  ⟨h'.period.trans h.period, h'.every.trans h.every, h'.grouping.trans h.grouping,
    fun stop hstop => h'.closed stop (h.closed stop hstop)⟩

theorem Evicts.advances {low : List (Instant × Panes)} (h : Evicts op op' low) :
    Advances op op' := by
  obtain ⟨panes, c, heq⟩ := h.config
  have hkeeps := h.keeps
  rw [heq] at hkeeps ⊢
  exact ⟨rfl, rfl, rfl, hkeeps⟩

theorem advances_enforceHorizon (op : Windowing) : Advances op op.enforceHorizon.1 := by
  cases hhorizon : op.horizon with
  | none =>
    rw [enforceHorizon, hhorizon]
    exact .refl op
  | some horizon => exact (evicts_enforceHorizon op hhorizon).advances

theorem advances_onBatch (op : Windowing) (b : Batch) : Advances op (op.onBatch b).1 := by
  obtain ⟨panes, late, unwindowed, heq⟩ :=
    foldl_addRow_eq (op.grouping.keyFor b) b.columns op b.rows
  rw [onBatch, heq]
  have h := advances_enforceHorizon
    { op with panes, lateRows := late, unwindowedRows := unwindowed }
  exact ⟨h.period, h.every, h.grouping, h.closed⟩

theorem advances_onWatermark (op : Windowing) (t : Instant) :
    Advances op (op.onWatermark t).1 :=
  (evicts_onWatermark op t).advances

end SeriesPipeline.Windowing
