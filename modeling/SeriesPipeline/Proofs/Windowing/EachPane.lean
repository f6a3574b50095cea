import SeriesPipeline.Proofs.Windowing.Buckets

/-!
# Panes of groups

A property of panes, told with their group and their end, holds of every pane of a windowing if it
holds of the panes that a row is placed in. A batch is taken in two steps: its rows are placed, and
then the smallest ends beyond the horizon are closed. What a windowing emits comes of panes of the
ends that it closes.
-/

namespace SeriesPipeline.Windowing

variable {op op' : Windowing} {low : List (Instant × Panes)} {key : SeriesKey} {stop : Instant}
  {columns : List String} {pane b : Batch} {P : SeriesKey → Instant → Batch → Prop}

/-- Every pane has the property, with its group and its end. -/
def EachPane (P : SeriesKey → Instant → Batch → Prop) (op : Windowing) : Prop :=
  ∀ key stop, ∀ pane ∈ op.pane? key stop, P key stop pane

theorem pane?_eq_some_iff :
    op.pane? key stop = some pane ↔
      ∃ groups, (stop, groups) ∈ op.panes.entries ∧ (key, pane) ∈ groups.entries := by
  rw [pane?, paneIn, Option.bind_eq_some_iff]
  simp only [SortedMap.get?_eq_some_iff]

theorem eachPane_of_panes_eq (h : op.panes = ∅) : op.EachPane P := by
  intro key stop pane hpane
  obtain ⟨groups, hgroups, -⟩ := pane?_eq_some_iff.1 hpane
  rw [h] at hgroups
  cases hgroups

/-! ## Placing rows -/

/-- The windowing with the rows of a batch in their panes, before the horizon is looked at. -/
def placeRows (op : Windowing) (b : Batch) : Windowing :=
  b.rows.foldl (addRow (op.grouping.keyFor b) b.columns) op

theorem placeRows_eq (op : Windowing) (b : Batch) : ∃ panes late unwindowed, op.placeRows b =
    { op with panes, lateRows := late, unwindowedRows := unwindowed } :=
  foldl_addRow_eq _ _ _ _

theorem advances_placeRows (op : Windowing) (b : Batch) : Advances op (op.placeRows b) := by
  obtain ⟨panes, late, unwindowed, heq⟩ := op.placeRows_eq b
  rw [heq]
  exact ⟨rfl, rfl, rfl, fun _ hclosed => hclosed⟩

theorem isClosed_placeRows (op : Windowing) (b : Batch) (stop : Instant) :
    (op.placeRows b).isClosed stop = op.isClosed stop := by
  obtain ⟨panes, late, unwindowed, heq⟩ := op.placeRows_eq b
  rw [heq]
  rfl

/-- A pane has the rows that it held and then those that are assigned to it. -/
theorem PaneHolds.placeRows {held : List Entry} (h : PaneHolds key held (op.pane? key stop))
    (hevery : 0 < op.every.reach) (port : Nat) (hb : b.Consistent) :
    PaneHolds key (held ++ op.assignedBy key stop (.batch port b))
      ((op.placeRows b).pane? key stop) :=
  paneHolds_foldl_addRow hevery (fun _ hr => hb.wellFormed _ (List.mem_map_of_mem hr)) h

theorem EachPane.addRow {row : Row} (hevery : 0 < op.every.reach) (h : op.EachPane P)
    (hnew : ∀ stop, op.Assigns row.time stop → ∀ pane : Option Batch, (∀ p ∈ pane, P key stop p) →
      P key stop (withRow key columns row pane)) :
    (Windowing.addRow key columns op row).EachPane P := by
  intro key' stop pane hpane
  rw [pane?_addRow hevery, Option.mem_def] at hpane
  split at hpane
  · rename_i hassigned
    obtain ⟨hassigns, rfl⟩ := hassigned
    rw [← Option.some.inj hpane]
    exact hnew stop hassigns _ fun p hp => h key' stop p hp
  · exact h key' stop pane hpane

/-- A row is placed in panes of the open ends that cover it. -/
theorem EachPane.placeRows (hevery : 0 < op.every.reach) (h : op.EachPane P)
    (hnew : ∀ row ∈ b.rows, ∀ stop, op.Assigns row.time stop → ∀ pane : Option Batch,
      (∀ p ∈ pane, P (op.grouping.keyFor b) stop p) →
      P (op.grouping.keyFor b) stop (withRow (op.grouping.keyFor b) b.columns row pane)) :
    (op.placeRows b).EachPane P := by
  rw [Windowing.placeRows]
  generalize op.grouping.keyFor b = key at hnew ⊢
  generalize b.rows = rows at hnew ⊢
  induction rows generalizing op with
  | nil => exact h
  | cons row rest ih =>
    obtain ⟨hfirst, hrest⟩ := List.forall_mem_cons.1 hnew
    have hplaced := h.addRow hevery hfirst
    obtain ⟨late, unwindowed, heq⟩ := addRow_eq key b.columns op row
    rw [List.foldl_cons]
    rw [heq] at hplaced ⊢
    -- placing a row closes no end, so the rest is assigned as before
    exact ih hevery hplaced hrest

/-! ## Closing ends -/

/-- The smallest ends, as many as there are more than the horizon. -/
def excess (op : Windowing) : List (Instant × Panes) :=
  match op.horizon with
  | none => []
  | some horizon => op.panes.entries.take (op.panes.size - horizon)

theorem Evicts.refl (op : Windowing) : Evicts op op [] :=
  ⟨⟨_, _, rfl⟩, rfl, nofun, fun _ hclosed => hclosed, fun _ hclosed => .inl hclosed⟩

theorem evicts_excess (op : Windowing) : Evicts op op.enforceHorizon.1 op.excess := by
  cases hhorizon : op.horizon with
  | none =>
    rw [excess, enforceHorizon, hhorizon]
    exact .refl op
  | some horizon =>
    rw [excess, hhorizon]
    exact evicts_enforceHorizon op hhorizon

theorem enforceHorizon_snd (op : Windowing) : op.enforceHorizon.2 = op.flushAll op.excess := by
  cases hhorizon : op.horizon with
  | none =>
    rw [excess, enforceHorizon, hhorizon]
    rfl
  | some horizon => rw [enforceHorizon_eq op hhorizon, excess, hhorizon]

theorem onBatch_eq (op : Windowing) (b : Batch) :
    op.onBatch b = (op.placeRows b).enforceHorizon := rfl

namespace Evicts

theorem pane?_of_kept (h : Evicts op op' low) (hpane : op'.pane? key stop = some pane) :
    op.pane? key stop = some pane := by
  obtain ⟨groups, hgroups, hentry⟩ := pane?_eq_some_iff.1 hpane
  refine pane?_eq_some_iff.2 ⟨groups, ?_, hentry⟩
  rw [h.entries]
  exact List.mem_append_right _ hgroups

/-- An end that was open and still has panes is open. -/
theorem isClosed_of_kept (h : Evicts op op' low) (hpane : op'.pane? key stop = some pane)
    (hopen : op.isClosed stop = false) : op'.isClosed stop = false := by
  rw [← Bool.not_eq_true] at hopen ⊢
  intro hclosed
  rcases h.spares stop hclosed with hbefore | hnone
  · exact hopen hbefore
  · rw [pane?, paneIn, hnone] at hpane
    cases hpane

/-- What is emitted comes of a pane of an end that is closed now. -/
theorem exists_pane_of_mem_flushAll (h : Evicts op op' low) (hb : b ∈ op.flushAll low) :
    ∃ key stop pane, op.pane? key stop = some pane ∧ op'.isClosed stop = true ∧
      b ∈ op.pieces stop pane := by
  obtain ⟨e, he, g, hg, hb⟩ := Windowing.exists_pane_of_mem_flushAll hb
  exact ⟨g.1, e.1, g.2, pane?_eq_some_iff.2 ⟨e.2, h.mem_entries he, hg⟩, h.closes e he, hb⟩

end Evicts

theorem EachPane.evicts (h : op.EachPane P) (hevicts : Evicts op op' low) : op'.EachPane P :=
  fun key stop pane hpane => h key stop pane (hevicts.pane?_of_kept hpane)

end SeriesPipeline.Windowing
