import SeriesPipeline.Proofs.Data.AlignedRows

/-!
# The shape of batches

Between operators a batch has rows, one value per column in each of them, and times that never go
back. Appending, sorting and leaving out rows keep that.
-/

namespace SeriesPipeline

theorem Window.contains_iff {w : Window} {t : Instant} :
    w.contains t = true ↔ w.start ≤ t ∧ t < w.stop := by
  rw [contains, Bool.and_eq_true, decide_eq_true_iff, decide_eq_true_iff]

namespace Batch

/-- The times of the rows, in order. -/
def times (b : Batch) : List Instant := b.rows.map (·.time)

/-- Every row has one value per column. -/
def Rectangular (b : Batch) : Prop := ∀ r ∈ b.rows, r.values.length = b.columns.length

structure WellFormed (b : Batch) : Prop where
  nonempty : b.rows ≠ []
  width : b.Rectangular
  ordered : b.times.Pairwise (· ≤ ·)

/-- The batch has a window, and all its rows are in it. -/
def Enclosed (b : Batch) : Prop := ∃ w, b.window = some w ∧ ∀ t ∈ b.times, w.contains t = true

/-- A well-formed batch, of distinct columns and in a window where these are asked for. -/
structure Fits (distinct enclosed : Prop) (b : Batch) : Prop where
  wellFormed : b.WellFormed
  columns : distinct → b.columns.Nodup
  window : enclosed → b.Enclosed

/-- A batch that an operator holds back for the window `w`. -/
structure HeldFor (enclosed : Prop) (w : Window) (b : Batch) : Prop where
  wellFormed : b.WellFormed
  contains : enclosed → ∀ t ∈ b.times, w.contains t = true

/-- `b'` is of the window of `b`, and has rows at some of its times. -/
structure Thins (b b' : Batch) : Prop where
  window : b'.window = b.window
  times : b'.times.Sublist b.times

variable {b b' : Batch} {columns new : List String} {row : Row}

theorem Thins.enclosed (h : b.Thins b') (hb : b.Enclosed) : b'.Enclosed := by
  obtain ⟨w, hw, hcontains⟩ := hb
  exact ⟨w, h.window.trans hw, fun t ht => hcontains t (h.times.subset ht)⟩

theorem Fits.mono {distinct distinct' enclosed : Prop} (h : b.Fits distinct enclosed)
    (hdistinct : distinct' → distinct) : b.Fits distinct' enclosed :=
  ⟨h.wellFormed, fun hd => h.columns (hdistinct hd), h.window⟩

theorem Fits.heldFor {distinct enclosed : Prop} {w : Window} (h : b.Fits distinct enclosed)
    (hw : b.alignmentWindow = some w) : b.HeldFor enclosed w where
  wellFormed := h.wellFormed
  contains henclosed := by
    obtain ⟨w', hw', hcontains⟩ := h.window henclosed
    rw [alignmentWindow, hw'] at hw
    exact Option.some.inj hw ▸ hcontains

/-! ## Appending rows -/

@[simp] theorem times_pushAligned (b : Batch) (columns : List String) (row : Row) :
    (b.pushAligned columns row).times = b.times ++ [row.time] := by
  rw [pushAligned]
  split
  · exact List.map_append
  · rw [times, List.map_append, List.map_map]
    rfl

theorem Rectangular.pushAligned (h : b.Rectangular) (hrow : row.values.length = columns.length) :
    (b.pushAligned columns row).Rectangular := by
  intro r hr
  rw [Batch.pushAligned] at hr ⊢
  split at hr
  · -- the columns stay as they are
    rename_i heq
    rw [if_pos heq]
    rcases List.mem_append.1 hr with hr | hr
    · exact h r hr
    · rw [List.mem_singleton.1 hr, hrow, heq]
  · -- old rows are widened by as many cells as columns are added
    rename_i hne
    rw [if_neg hne]
    rcases List.mem_append.1 hr with hr | hr
    · obtain ⟨old, hold, rfl⟩ := List.mem_map.1 hr
      simp only [Row.widen, List.length_append, List.length_replicate, h old hold, addColumns_eq,
        Nat.add_sub_cancel_left]
    · rw [List.mem_singleton.1 hr]
      exact length_layOut _ _

theorem nodup_columns_pushAligned (h : b.columns.Nodup) (columns : List String) (row : Row) :
    (b.pushAligned columns row).columns.Nodup := by
  rw [columns_pushAligned]
  exact nodup_addColumns h columns

section PushAll

variable {pushed : List Entry}

theorem times_pushAll : (b.pushAll pushed).times = b.times ++ pushed.map Entry.time := by
  apply pushAll_induction (P := fun done b' => b'.times = b.times ++ done.map Entry.time)
  · exact (List.append_nil _).symm
  · intro done b' hdone e _
    rw [times_pushAligned, hdone, List.append_assoc, List.map_append]
    rfl

theorem Rectangular.pushAll (h : b.Rectangular)
    (hpushed : ∀ e ∈ pushed, e.row.values.length = e.columns.length) :
    (b.pushAll pushed).Rectangular :=
  pushAll_induction (P := fun _ b' => b'.Rectangular) h fun _ _ hwidth e he =>
    hwidth.pushAligned (hpushed e he)

theorem nodup_columns_pushAll (h : b.columns.Nodup) : (b.pushAll pushed).columns.Nodup :=
  pushAll_induction (P := fun _ b' => b'.columns.Nodup) h fun _ _ hdistinct e _ =>
    nodup_columns_pushAligned hdistinct e.columns e.row

end PushAll

/-! ## Sorting rows -/

theorem sortRows_perm (b : Batch) : b.sortRows.rows.Perm b.rows := List.mergeSort_perm _ _

theorem times_sortRows_perm (b : Batch) : b.sortRows.times.Perm b.times := (sortRows_perm b).map _

theorem Rectangular.sortRows (h : b.Rectangular) : b.sortRows.Rectangular :=
  fun r hr => h r ((sortRows_perm b).subset hr)

theorem pairwise_times_sortRows (b : Batch) : b.sortRows.times.Pairwise (· ≤ ·) :=
  List.pairwise_map.2 (stablyOrdered_mergeSort Row.time b.rows).ordered

end Batch

end SeriesPipeline
