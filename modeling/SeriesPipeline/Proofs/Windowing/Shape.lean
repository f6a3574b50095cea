import SeriesPipeline.Proofs.Windowing.Buckets

/-!
# The shape of windows

Panes are laid out as the rows that they are made of, so what a windowing emits is well-formed, and
its windows contain its rows.
-/

namespace SeriesPipeline.Windowing

/-- A pane of well-formed rows that its window covers. -/
structure ShapedPane (distinct : Prop) (period every : Int) (stop : Instant) (pane : Batch) :
    Prop where
  covered : Covered period every stop pane
  width : pane.Rectangular
  columns : distinct → pane.columns.Nodup

/-- Ends and buckets are apart, and what is buffered has its shape. -/
structure Shaped (distinct : Prop) (op : Windowing) : Prop where
  every : 0 < op.every.reach
  buckets : ∀ bucket ∈ op.grouping.bucket, 0 < bucket.reach
  panes : AllPanes (ShapedPane distinct op.period.reach op.every.reach) op.panes

variable {distinct : Prop} {op op' : Windowing} {key : SeriesKey} {columns : List String}
  {row : Row} {stop : Instant} {b pane : Batch}

theorem extends_shapedPane {period every : Int} (hevery : 0 < every)
    (hstop : stop ∈ coveringEnds period every row.time)
    (hrow : row.values.length = columns.length) (hcolumns : distinct → columns.Nodup) :
    Extends (ShapedPane distinct period every) key columns row stop := by
  intro pane hpane
  refine ⟨extends_covered hevery hstop pane fun b hb => (hpane b hb).covered, ?_, ?_⟩
  · cases pane with
    | none => exact Batch.Rectangular.pushAligned (fun _ hr => nomatch hr) hrow
    | some b => exact (hpane b rfl).width.pushAligned hrow
  · intro hdistinct
    cases pane with
    | none => exact Batch.nodup_columns_pushAligned (hcolumns hdistinct) columns row
    | some b => exact Batch.nodup_columns_pushAligned ((hpane b rfl).columns hdistinct) columns row

section Steps

variable (h : op.Shaped distinct)
include h

theorem Shaped.of_advances (hadvances : Advances op op')
    (hpanes : AllPanes (ShapedPane distinct op.period.reach op.every.reach) op'.panes) :
    op'.Shaped distinct := by
  refine ⟨hadvances.every ▸ h.every, hadvances.grouping ▸ h.buckets, ?_⟩
  rw [hadvances.period, hadvances.every]
  exact hpanes

theorem Shaped.fits_of_mem_pieces
    (hpane : ShapedPane distinct op.period.reach op.every.reach stop pane)
    (hb : b ∈ op.pieces stop pane) : b.Fits distinct True := by
  have hfrom := emittedFrom_of_mem_pieces h.buckets hpane.covered hb
  refine ⟨⟨hfrom.nonempty, fun r hr => ?_, ?_⟩, fun hdistinct => ?_, fun _ => hfrom.encloses⟩
  · rw [hfrom.columns]
    exact hpane.width.sortRows r (hfrom.sublist.subset hr)
  · exact (Batch.pairwise_times_sortRows pane).sublist (hfrom.sublist.map _)
  · rw [hfrom.columns]
    exact hpane.columns hdistinct

theorem Shaped.onBatch (hwidth : b.Rectangular) (hcolumns : distinct → b.columns.Nodup) :
    (op.onBatch b).1.Shaped distinct ∧ ∀ b' ∈ (op.onBatch b).2, b'.Fits distinct True := by
  obtain ⟨hpanes, hout⟩ := h.panes.onBatch (b := b) fun row hrow stop hstop _ =>
    extends_shapedPane h.every hstop (hwidth row hrow) hcolumns
  refine ⟨h.of_advances (advances_onBatch op b) hpanes, fun b' hb' => ?_⟩
  obtain ⟨stop, pane, hpane, hb'⟩ := hout b' hb'
  exact h.fits_of_mem_pieces hpane hb'

theorem Shaped.onWatermark (t : Instant) :
    (op.onWatermark t).1.Shaped distinct ∧ ∀ b ∈ (op.onWatermark t).2, b.Fits distinct True := by
  obtain ⟨hpanes, hout⟩ := h.panes.onWatermark t
  refine ⟨h.of_advances (advances_onWatermark op t) hpanes, fun b hb => ?_⟩
  obtain ⟨stop, pane, hpane, hb⟩ := hout b hb
  exact h.fits_of_mem_pieces hpane hb

theorem Shaped.onClose : op.onClose.Shaped distinct := ⟨h.every, h.buckets, allPanes_empty⟩

end Steps

end SeriesPipeline.Windowing
