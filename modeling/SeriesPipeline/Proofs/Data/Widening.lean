import SeriesPipeline.Proofs.Data.Shape

/-!
# Batches that widen

A row that comes under other columns is appended by name: a column that the batch lacks goes to its
end, with null in the rows before. However many rows come, the batch keeps what it had, and each row
shows its own cells and null under the columns of the others. A row under the very columns of the
batch is appended as it is, which comes to the same.
-/

namespace SeriesPipeline

/-- Values are told by the cells under their columns. -/
theorem values_eq_of_lookup_eq {columns : List String} {values values' : List Value}
    (hdistinct : columns.Nodup) (hlen : values.length = columns.length)
    (hlen' : values'.length = columns.length)
    (h : ∀ c ∈ columns, (columns.zip values).lookup c = (columns.zip values').lookup c) :
    values = values' := by
  induction columns generalizing values values' with
  | nil => rw [List.length_eq_zero_iff.1 hlen, List.length_eq_zero_iff.1 hlen']
  | cons d rest ih =>
    obtain ⟨hd, hrest⟩ := List.nodup_cons.1 hdistinct
    obtain ⟨v, values, rfl⟩ := List.exists_cons_of_length_eq_add_one hlen
    obtain ⟨v', values', rfl⟩ := List.exists_cons_of_length_eq_add_one hlen'
    have hfirst : v = v' := by
      have hcell := h d List.mem_cons_self
      rw [List.zip_cons_cons, List.zip_cons_cons, lookup_cons_eq, lookup_cons_eq, if_pos rfl,
        if_pos rfl] at hcell
      exact Option.some.inj hcell
    have hlater : values = values' := by
      apply ih hrest (Nat.succ.inj hlen) (Nat.succ.inj hlen')
      intro c hc
      have hcd : c ≠ d := fun heq => hd (heq ▸ hc)
      have hcell := h c (List.mem_cons_of_mem d hc)
      rwa [List.zip_cons_cons, List.zip_cons_cons, lookup_cons_eq, lookup_cons_eq, if_neg hcd,
        if_neg hcd] at hcell
    rw [hfirst, hlater]

namespace Batch

/-- Appends a row by the names of its columns, also where they are those of the batch. -/
def pushByName (b : Batch) (columns : List String) (row : Row) : Batch :=
  let widened := addColumns b.columns columns
  { b with
    columns := widened
    rows := b.rows.map (Row.widen · (widened.length - b.columns.length))
      ++ [⟨row.time, layOut widened (columns.zip row.values)⟩] }

/-- `b'` has the columns of `b` and then those that the pushed rows added, in order of first
appearance. Its rows are those of `b` and those pushed, in that order: each has its own cells, and
null under the columns that it came without. -/
structure Widens (b : Batch) (pushed : List Entry) (b' : Batch) : Prop where
  key : b'.key = b.key
  window : b'.window = b.window
  columns : b'.columns =
    b.columns ++ ((pushed.flatMap (·.columns)).removeAll b.columns).eraseDups
  distinct : b'.columns.Nodup
  width : b'.Rectangular
  rows : List.Forall₂ (Shows b'.columns) (b.entries ++ pushed) b'.rows

variable {b b' : Batch} {pushed : List Entry} {e : Entry} {row : Row}

/-! ## Two ways to append a row -/

theorem layOut_self {columns : List String} {values : List Value} (hdistinct : columns.Nodup)
    (hlen : values.length = columns.length) : layOut columns (columns.zip values) = values := by
  have he : (⟨columns, ⟨Instant.epoch, values⟩⟩ : Entry).WellFormed := ⟨hdistinct, hlen⟩
  have hshows := shows_layOut he fun _ hc => hc
  exact values_eq_of_lookup_eq hdistinct hshows.width hlen fun c hc => (hshows.own c hc).2

theorem pushByName_self (hdistinct : b.columns.Nodup)
    (hrow : row.values.length = b.columns.length) :
    b.pushByName b.columns row = { b with rows := b.rows ++ [row] } := by
  have hold : b.rows.map (Row.widen · 0) = b.rows := by
    apply List.map_id''
    intro r
    rw [Row.widen, List.replicate_zero, List.append_nil]
  rw [pushByName, addColumns_self, Nat.sub_self, hold, layOut_self hdistinct hrow]

theorem pushAligned_eq (b : Batch) (columns : List String) (row : Row) :
    b.pushAligned columns row =
      if columns = b.columns then { b with rows := b.rows ++ [row] }
      else b.pushByName columns row :=
  rfl

theorem pushAligned_eq_pushByName (hdistinct : b.columns.Nodup) (he : e.WellFormed) :
    b.pushAligned e.columns e.row = b.pushByName e.columns e.row := by
  rw [pushAligned_eq]
  split
  · rename_i heq
    rw [heq, pushByName_self hdistinct (heq ▸ he.width)]
  · rfl

/-! ## Rows one after the other -/

theorem widens_nil (hdistinct : b.columns.Nodup) (hwidth : b.Rectangular) : Widens b [] b := by
  refine ⟨rfl, rfl, (List.append_nil _).symm, hdistinct, hwidth, ?_⟩
  rw [List.append_nil, entries, List.forall₂_map_left_iff, List.forall₂_same]
  intro r hr
  have hentry : (⟨b.columns, r⟩ : Entry).WellFormed := ⟨hdistinct, hwidth r hr⟩
  exact shows_self hentry

theorem Widens.pushAligned (h : Widens b pushed b') (he : e.WellFormed) :
    Widens b (pushed ++ [e]) (b'.pushAligned e.columns e.row) := by
  have hcolumns : b'.columns = addColumns b.columns (pushed.flatMap (·.columns)) := by
    rw [h.columns, addColumns_eq]
  refine ⟨?_, ?_, ?_, nodup_columns_pushAligned h.distinct _ _, h.width.pushAligned he.width, ?_⟩
  · rw [Batch.key, name_pushAligned, tags_pushAligned]
    exact h.key
  · rw [window_pushAligned, h.window]
  · -- adding the columns of all rows so far, and then those of one more row, adds those of them all
    rw [columns_pushAligned, hcolumns, ← addColumns_eq, List.flatMap_append, List.flatMap_singleton,
      addColumns, addColumns, addColumns, List.foldl_append]
  · rw [← List.append_assoc]
    exact shows_pushAligned h.rows he

theorem widens_pushAll (hdistinct : b.columns.Nodup) (hwidth : b.Rectangular)
    (hpushed : ∀ e ∈ pushed, e.WellFormed) : Widens b pushed (b.pushAll pushed) :=
  pushAll_induction (widens_nil hdistinct hwidth) fun _ _ hdone e he =>
    hdone.pushAligned (hpushed e he)

theorem pushAll_eq_foldl_pushByName (hdistinct : b.columns.Nodup)
    (hpushed : ∀ e ∈ pushed, e.WellFormed) :
    b.pushAll pushed = pushed.foldl (fun b e => b.pushByName e.columns e.row) b := by
  induction pushed generalizing b with
  | nil => rfl
  | cons e rest ih =>
    obtain ⟨he, hrest⟩ := List.forall_mem_cons.1 hpushed
    rw [pushAll, List.foldl_cons, List.foldl_cons, ← pushAligned_eq_pushByName hdistinct he]
    exact ih (nodup_columns_pushAligned hdistinct e.columns e.row) hrest

/-- Whatever columns the rows come under, no cell is lost or moved, and appending by name throughout
gives the same batch. -/
theorem pushAll_keeps_cells (hdistinct : b.columns.Nodup) (hwidth : b.Rectangular)
    (hpushed : ∀ e ∈ pushed, e.WellFormed) :
    Widens b pushed (b.pushAll pushed) ∧
    b.pushAll pushed = pushed.foldl (fun b e => b.pushByName e.columns e.row) b ∧
    ∀ row : Row, row.values.length = b.columns.length →
      b.pushByName b.columns row = { b with rows := b.rows ++ [row] } :=
  ⟨widens_pushAll hdistinct hwidth hpushed, pushAll_eq_foldl_pushByName hdistinct hpushed,
    fun _ hrow => pushByName_self hdistinct hrow⟩

/-- The second row brings a column, the third one has all columns in another order, and the last one
comes as the batch is by then. -/
theorem pushAll_keeps_cells_of_three :
    let b : Batch := ⟨"m", ∅, ["a", "b"], [⟨⟨5⟩, [.int 1, .text "x"]⟩], none⟩
    let pushed : List Entry :=
      [⟨["b", "c"], ⟨⟨3⟩, [.int 2, .bool true]⟩⟩, ⟨["c", "a", "b"], ⟨⟨4⟩, [.int 3, .null, .int 4]⟩⟩,
        ⟨["a", "b", "c"], ⟨⟨9⟩, [.int 5, .int 6, .int 7]⟩⟩]
    (∀ e ∈ pushed, e.WellFormed) ∧
    (b.pushAll pushed).columns = ["a", "b", "c"] ∧
    (b.pushAll pushed).rows =
      [⟨⟨5⟩, [.int 1, .text "x", .null]⟩, ⟨⟨3⟩, [.null, .int 2, .bool true]⟩,
        ⟨⟨4⟩, [.null, .int 4, .int 3]⟩, ⟨⟨9⟩, [.int 5, .int 6, .int 7]⟩] ∧
    Widens b pushed (b.pushAll pushed) ∧
    b.pushAll pushed = pushed.foldl (fun b e => b.pushByName e.columns e.row) b := by
  intro b pushed
  have hwidth : b.Rectangular := by
    intro r hr
    rw [List.mem_singleton.1 hr]
    rfl
  have hpushed : ∀ e ∈ pushed, e.WellFormed := by
    intro e he
    simp only [pushed, List.mem_cons, List.not_mem_nil, or_false] at he
    rcases he with rfl | rfl | rfl
    · exact ⟨by decide, rfl⟩
    · exact ⟨by decide, rfl⟩
    · exact ⟨by decide, rfl⟩
  obtain ⟨hwidens, hsame, -⟩ := pushAll_keeps_cells (b := b) (by decide) hwidth hpushed
  exact ⟨hpushed, rfl, rfl, hwidens, hsame⟩

end Batch

end SeriesPipeline
