import Mathlib.Data.List.Forall2
import Mathlib.Data.List.Induction
import SeriesPipeline.Proofs.Data.Consistency
import SeriesPipeline.Proofs.StableOrder

/-!
# Rows under other columns

A batch holds rows that were laid out under other columns when it has their columns and no more,
and each of its rows has the cells of the row that it stands for and null elsewhere. Appending a
row to a batch makes the batch hold that row too, and sorting a batch keeps what it holds.
-/

namespace SeriesPipeline

/-- The value of a row under a column. -/
def Row.under (r : Row) (columns : List String) (c : String) : Option Value :=
  (columns.zip r.values).lookup c

/-- A row with the columns that it was laid out under. -/
structure Entry where
  columns : List String
  row : Row

def Entry.time (e : Entry) : Instant := e.row.time

/-- The rows of a batch under its columns. -/
def Batch.entries (b : Batch) : List Entry := b.rows.map fun r => ⟨b.columns, r⟩

/-- Every column of the entry occurs once and has a value. -/
structure Entry.WellFormed (e : Entry) : Prop where
  distinct : e.columns.Nodup
  width : e.row.values.length = e.columns.length

/-- Under `columns`, `r` has the cells of `e` and null in all others. -/
structure Shows (columns : List String) (e : Entry) (r : Row) : Prop where
  time : r.time = e.time
  width : r.values.length = columns.length
  own : ∀ c ∈ e.columns, c ∈ columns ∧ r.under columns c = e.row.under e.columns c
  other : ∀ c ∈ columns, c ∉ e.columns → r.under columns c = some .null

/-- The rows of `b` stand for `entries`, one for one and in order. -/
structure Batch.Holds (b : Batch) (entries : List Entry) : Prop where
  distinct : b.columns.Nodup
  columns : ∀ c, c ∈ b.columns ↔ ∃ e ∈ entries, c ∈ e.columns
  rows : List.Forall₂ (Shows b.columns) entries b.rows

theorem Batch.Consistent.wellFormed {b : Batch} (h : b.Consistent) :
    ∀ e ∈ b.entries, e.WellFormed := by
  intro e he
  obtain ⟨r, hr, rfl⟩ := List.mem_map.1 he
  exact ⟨h.columns, h.width r hr⟩

/-! ## Cells -/

theorem lookup_cons_eq (d : String) (v : Value) (cells : List (String × Value)) (c : String) :
    ((d, v) :: cells).lookup c = if c = d then some v else cells.lookup c := by
  rw [List.lookup_cons]
  by_cases hc : c = d
  · rw [if_pos hc, hc, beq_self_eq_true]
  · rw [if_neg hc, beq_false_of_ne hc]

theorem lookup_zip_isSome {columns : List String} {values : List Value} {c : String}
    (h : values.length = columns.length) :
    ((columns.zip values).lookup c).isSome ↔ c ∈ columns := by
  induction columns generalizing values with
  | nil => simp
  | cons d rest ih =>
    cases values with
    | nil => simp at h
    | cons v values =>
      rw [List.zip_cons_cons, lookup_cons_eq, List.mem_cons]
      by_cases hc : c = d
      · simp [hc]
      · rw [if_neg hc, ih (by simpa using h)]
        simp [hc]

theorem lookup_zip_replicate (columns : List String) (c : String) (h : c ∈ columns) :
    (columns.zip (List.replicate columns.length Value.null)).lookup c = some .null := by
  induction columns with
  | nil => simp at h
  | cons d rest ih =>
    rw [List.length_cons, List.replicate_succ, List.zip_cons_cons, lookup_cons_eq]
    by_cases hc : c = d
    · rw [if_pos hc]
    · rw [if_neg hc]
      exact ih ((List.mem_cons.1 h).resolve_left hc)

theorem lookup_zip_set {columns : List String} {values : List Value} {d : String} {i : Nat}
    (v : Value) (c : String) (h : values.length = columns.length)
    (hi : columns.idxOf? d = some i) :
    (columns.zip (values.set i v)).lookup c =
      if c = d then some v else (columns.zip values).lookup c := by
  induction columns generalizing values i with
  | nil => simp at hi
  | cons e rest ih =>
    cases values with
    | nil => simp at h
    | cons w values =>
      rw [List.idxOf?_cons] at hi
      by_cases hde : e = d
      · subst hde
        rw [if_pos (beq_self_eq_true e)] at hi
        cases hi
        rw [List.set_cons_zero, List.zip_cons_cons, List.zip_cons_cons, lookup_cons_eq,
          lookup_cons_eq]
        by_cases hc : c = e <;> simp [hc]
      · rw [if_neg (by simpa using hde), Option.map_eq_some_iff] at hi
        obtain ⟨j, hj, rfl⟩ := hi
        rw [List.set_cons_succ, List.zip_cons_cons, List.zip_cons_cons, lookup_cons_eq,
          lookup_cons_eq, ih (by simpa using h) hj]
        by_cases hc : c = e
        · simp [hc, hde]
        · simp [hc]

/-- Puts a cell under the column of its name, if there is one. -/
def setCell (columns : List String) (values : List Value) (cell : String × Value) : List Value :=
  match columns.idxOf? cell.1 with
  | some i => values.set i cell.2
  | none => values

theorem layOut_eq (columns : List String) (cells : List (String × Value)) :
    Batch.layOut columns cells =
      cells.foldl (setCell columns) (List.replicate columns.length .null) :=
  rfl

theorem length_setCell (columns : List String) (values : List Value) (cell : String × Value) :
    (setCell columns values cell).length = values.length := by
  rw [setCell]
  split
  · rw [List.length_set]
  · rfl

theorem lookup_setCell {columns : List String} {values : List Value}
    (h : values.length = columns.length) (cell : String × Value) {c : String} (hc : c ∈ columns) :
    (columns.zip (setCell columns values cell)).lookup c =
      if c = cell.1 then some cell.2 else (columns.zip values).lookup c := by
  rw [setCell]
  cases hi : columns.idxOf? cell.1 with
  | some i => exact lookup_zip_set cell.2 c h hi
  | none =>
    have hne : c ≠ cell.1 := fun heq => List.idxOf?_eq_none_iff.1 hi (heq ▸ hc)
    rw [if_neg hne]

/-- A cell goes to the column of its name, and a column without a cell keeps its value. -/
theorem lookup_foldl_setCell {columns : List String} (cells : List (String × Value))
    {values : List Value} (hlen : values.length = columns.length)
    (hcells : (cells.map (·.1)).Nodup) {c : String} (hc : c ∈ columns) :
    (columns.zip (cells.foldl (setCell columns) values)).lookup c =
      (cells.lookup c).or ((columns.zip values).lookup c) := by
  induction cells generalizing values with
  | nil => simp
  | cons cell rest ih =>
    obtain ⟨d, v⟩ := cell
    rw [List.map_cons, List.nodup_cons] at hcells
    obtain ⟨hd, hrest⟩ := hcells
    have hlen' : (setCell columns values (d, v)).length = columns.length := by
      rw [length_setCell, hlen]
    rw [List.foldl_cons, lookup_cons_eq, ih hlen' hrest, lookup_setCell hlen _ hc]
    by_cases hcd : c = d
    · -- no later cell is for the same column
      subst hcd
      have hnone : rest.lookup c = none := by
        rw [List.lookup_eq_none_iff]
        rintro ⟨e, w⟩ hp
        have hce : c ≠ e := by
          rintro rfl
          exact hd (List.mem_map.2 ⟨(c, w), hp, rfl⟩)
        simpa using hce
      rw [hnone, Option.none_or, if_pos rfl, if_pos rfl, Option.some_or]
    · rw [if_neg hcd, if_neg hcd]

theorem length_layOut (columns : List String) (cells : List (String × Value)) :
    (Batch.layOut columns cells).length = columns.length := by
  rw [layOut_eq]
  suffices h : ∀ values, (cells.foldl (setCell columns) values).length = values.length by
    rw [h, List.length_replicate]
  induction cells with
  | nil => exact fun values => rfl
  | cons cell rest ih =>
    intro values
    rw [List.foldl_cons, ih, length_setCell]

namespace Row

variable {r : Row} {columns : List String} (h : r.values.length = columns.length) {c : String}
include h

theorem exists_under (hc : c ∈ columns) : ∃ v, r.under columns c = some v :=
  Option.isSome_iff_exists.1 ((lookup_zip_isSome h).2 hc)

theorem under_eq_none (hc : c ∉ columns) : r.under columns c = none := by
  rw [← Option.not_isSome_iff_eq_none, under, lookup_zip_isSome h]
  exact hc

end Row

/-! ## Rows that stand for entries -/

theorem shows_self {e : Entry} (h : e.WellFormed) : Shows e.columns e e.row where
  time := rfl
  width := h.width
  own _ hc := ⟨hc, rfl⟩
  other _ hc hnot := absurd hc hnot

theorem shows_widen {columns extra : List String} {e : Entry} {r : Row} (h : Shows columns e r)
    (hextra : ∀ c ∈ extra, c ∉ columns) :
    Shows (columns ++ extra) e (Batch.Row.widen r extra.length) := by
  have hunder : ∀ c, (Batch.Row.widen r extra.length).under (columns ++ extra) c =
      (r.under columns c).or
        ((extra.zip (List.replicate extra.length Value.null)).lookup c) := by
    intro c
    rw [Row.under, Batch.Row.widen, List.zip_append h.width.symm, List.lookup_append]
    rfl
  have hold : ∀ c ∈ columns, (Batch.Row.widen r extra.length).under (columns ++ extra) c =
      r.under columns c := by
    intro c hc
    obtain ⟨v, hv⟩ := Row.exists_under h.width hc
    rw [hunder, hv, Option.some_or]
  refine ⟨h.time, ?_, ?_, ?_⟩
  · show (r.values ++ List.replicate extra.length Value.null).length = _
    rw [List.length_append, List.length_append, List.length_replicate, h.width]
  · intro c hc
    obtain ⟨hmem, hcell⟩ := h.own c hc
    exact ⟨List.mem_append_left _ hmem, by rw [hold c hmem, hcell]⟩
  · intro c hc hnot
    rcases List.mem_append.1 hc with hc | hc
    · rw [hold c hc, h.other c hc hnot]
    · rw [hunder, Row.under_eq_none h.width (hextra c hc), Option.none_or,
        lookup_zip_replicate extra c hc]

theorem shows_layOut {columns : List String} {e : Entry} (h : e.WellFormed)
    (hsub : ∀ c ∈ e.columns, c ∈ columns) :
    Shows columns e ⟨e.row.time, Batch.layOut columns (e.columns.zip e.row.values)⟩ := by
  have hcells : ((e.columns.zip e.row.values).map (·.1)).Nodup := by
    rw [List.map_fst_zip h.width.ge]
    exact h.distinct
  have hunder : ∀ c ∈ columns,
      (⟨e.row.time, Batch.layOut columns (e.columns.zip e.row.values)⟩ : Row).under columns c =
        (e.row.under e.columns c).or (some .null) := by
    intro c hc
    have hcell := lookup_foldl_setCell _ (List.length_replicate (a := Value.null)) hcells hc
    rw [lookup_zip_replicate columns c hc] at hcell
    exact hcell
  refine ⟨rfl, length_layOut _ _, ?_, ?_⟩
  · intro c hc
    obtain ⟨v, hv⟩ := Row.exists_under h.width hc
    exact ⟨hsub c hc, by rw [hunder c (hsub c hc), hv, Option.some_or]⟩
  · intro c hc hnot
    rw [hunder c hc, Row.under_eq_none h.width hnot, Option.none_or]

/-! ## Appending rows -/

namespace Batch

/-- Columns that were not there go to the end, in order of first appearance. -/
theorem addColumns_eq (columns new : List String) :
    addColumns columns new = columns ++ (new.removeAll columns).eraseDups := by
  rw [addColumns]
  induction new generalizing columns with
  | nil => exact (List.append_nil columns).symm
  | cons c rest ih =>
    rw [List.foldl_cons, List.removeAll, List.filter_cons]
    by_cases hmem : columns.contains c
    · have hdrop : ¬ (!columns.elem c) = true := by simpa using hmem
      rw [if_pos hmem, ih, if_neg hdrop]
      rfl
    · have hkeep : (!columns.elem c) = true := by simpa using hmem
      -- what is left of the rest is without `c` too
      have hrest : rest.removeAll (columns ++ [c]) =
          (rest.removeAll columns).filter fun d => !d == c := by
        rw [List.removeAll, List.removeAll, List.filter_filter]
        refine List.filter_congr fun d _ => ?_
        by_cases hd : d = c <;> simp [hd]
      rw [if_neg hmem, ih, if_pos hkeep, List.eraseDups_cons, hrest, List.append_assoc]
      rfl

theorem mem_addColumns {columns new : List String} {c : String} :
    c ∈ addColumns columns new ↔ c ∈ columns ∨ c ∈ new := by
  rw [addColumns_eq, List.mem_append, List.mem_eraseDups, List.removeAll, List.mem_filter]
  by_cases hc : c ∈ columns <;> simp [hc]

theorem addColumns_self (columns : List String) : addColumns columns columns = columns := by
  have hnone : columns.removeAll columns = [] := by
    rw [List.removeAll, List.filter_eq_nil_iff]
    intro c hc
    simpa using hc
  rw [addColumns_eq, hnone, List.eraseDups_nil, List.append_nil]

theorem nodup_addColumns {columns : List String} (h : columns.Nodup) (new : List String) :
    (addColumns columns new).Nodup := by
  induction new generalizing columns with
  | nil => exact h
  | cons c rest ih =>
    rw [addColumns, List.foldl_cons]
    split
    · exact ih h
    · rename_i hnot
      refine ih (List.nodup_append.2 ⟨h, List.nodup_singleton c, ?_⟩)
      rintro d hd _ hc rfl
      exact hnot (List.elem_eq_true_of_mem (List.mem_singleton.1 hc ▸ hd))

@[simp] theorem name_pushAligned (b : Batch) (columns : List String) (row : Row) :
    (b.pushAligned columns row).name = b.name := by
  rw [pushAligned]; split <;> rfl

@[simp] theorem tags_pushAligned (b : Batch) (columns : List String) (row : Row) :
    (b.pushAligned columns row).tags = b.tags := by
  rw [pushAligned]; split <;> rfl

@[simp] theorem window_pushAligned (b : Batch) (columns : List String) (row : Row) :
    (b.pushAligned columns row).window = b.window := by
  rw [pushAligned]; split <;> rfl

theorem columns_pushAligned (b : Batch) (columns : List String) (row : Row) :
    (b.pushAligned columns row).columns = addColumns b.columns columns := by
  rw [pushAligned]
  split
  · rename_i heq
    rw [heq, addColumns_self]
  · rfl

/-- A row is appended for its entry, and the rows before it stand for what they stood for. -/
theorem shows_pushAligned {b : Batch} {entries : List Entry} {e : Entry}
    (h : List.Forall₂ (Shows b.columns) entries b.rows) (he : e.WellFormed) :
    List.Forall₂ (Shows (b.pushAligned e.columns e.row).columns) (entries ++ [e])
      (b.pushAligned e.columns e.row).rows := by
  rw [columns_pushAligned, pushAligned]
  split
  · -- a row with the columns of the batch is appended as it is
    rename_i heq
    rw [← heq, addColumns_self]
    exact List.rel_append (heq ▸ h) (.cons (shows_self he) .nil)
  · -- and else the batch gets the columns that it lacks, at the end
    refine List.rel_append ?_ (.cons (shows_layOut he fun c hc => mem_addColumns.2 (.inr hc)) .nil)
    rw [List.forall₂_map_right_iff, addColumns_eq, List.length_append, Nat.add_sub_cancel_left]
    refine h.imp fun _ _ hshow => shows_widen hshow fun c hc => ?_
    simpa [List.removeAll] using (List.mem_filter.1 (List.mem_eraseDups.1 hc)).2

theorem holds_nil (name : String) (tags : Tags) (window : Option Window) :
    (⟨name, tags, [], [], window⟩ : Batch).Holds [] :=
  ⟨List.nodup_nil, by simp, .nil⟩

/-- The first row of a batch that starts with the row's columns. -/
theorem holds_pushAligned_first (name : String) (tags : Tags) (window : Option Window) {e : Entry}
    (h : e.WellFormed) :
    ((⟨name, tags, e.columns, [], window⟩ : Batch).pushAligned e.columns e.row).Holds [e] := by
  rw [pushAligned, if_pos rfl]
  exact ⟨h.distinct, by simp, .cons (shows_self h) .nil⟩

theorem Holds.pushAligned {b : Batch} {entries : List Entry} {e : Entry} (h : b.Holds entries)
    (he : e.WellFormed) : (b.pushAligned e.columns e.row).Holds (entries ++ [e]) := by
  refine ⟨?_, fun c => ?_, shows_pushAligned h.rows he⟩
  · rw [columns_pushAligned]
    exact nodup_addColumns h.distinct e.columns
  · rw [columns_pushAligned, mem_addColumns, h.columns]
    simp only [List.mem_append, List.mem_singleton, or_and_right, exists_or, exists_eq_left]

/-- Appends rows one after the other, each as its columns lay it out. -/
def pushAll (b : Batch) (pushed : List Entry) : Batch :=
  pushed.foldl (fun b e => b.pushAligned e.columns e.row) b

section PushAll

variable {b : Batch} {pushed : List Entry}

/-- What holds of the rows appended so far and the batch with them holds of all rows at the end, if
one more row keeps it. -/
theorem pushAll_induction {P : List Entry → Batch → Prop} (hstart : P [] b)
    (hpush : ∀ done b', P done b' → ∀ e ∈ pushed, P (done ++ [e]) (b'.pushAligned e.columns e.row)) :
    P pushed (b.pushAll pushed) := by
  induction pushed using List.reverseRecOn with
  | nil => exact hstart
  | append_singleton pushed e ih =>
    have hbefore := ih fun done b' hdone d hd => hpush done b' hdone d (List.mem_append_left _ hd)
    rw [pushAll, List.foldl_concat]
    exact hpush pushed _ hbefore e List.mem_concat_self

theorem tags_pushAll : (b.pushAll pushed).tags = b.tags :=
  pushAll_induction (P := fun _ b' => b'.tags = b.tags) rfl fun _ b' htags e _ =>
    (tags_pushAligned b' e.columns e.row).trans htags

theorem window_pushAll : (b.pushAll pushed).window = b.window :=
  pushAll_induction (P := fun _ b' => b'.window = b.window) rfl fun _ b' hwindow e _ =>
    (window_pushAligned b' e.columns e.row).trans hwindow

theorem Holds.pushAll {entries : List Entry} (h : b.Holds entries)
    (hpushed : ∀ e ∈ pushed, e.WellFormed) : (b.pushAll pushed).Holds (entries ++ pushed) := by
  apply pushAll_induction (P := fun done b' => b'.Holds (entries ++ done))
  · rwa [List.append_nil]
  · intro done b' hdone e he
    rw [← List.append_assoc]
    exact hdone.pushAligned (hpushed e he)

end PushAll

/-- The rows of `b` stand for `entries` in order of time, those of one time in the order given. -/
def HoldsInOrder (b : Batch) (entries : List Entry) : Prop :=
  ∃ sorted, StablyOrdered Entry.time entries sorted ∧ b.Holds sorted

theorem Holds.sortRows {b : Batch} {entries : List Entry} (h : b.Holds entries) :
    b.sortRows.HoldsInOrder entries := by
  set le : Row → Row → Bool := fun r s => decide (r.time ≤ s.time) with hle
  set pairs := entries.zip b.rows with hpairs
  have hlen : entries.length = b.rows.length := h.rows.length_eq
  have hfst : pairs.map (·.1) = entries := List.map_fst_zip hlen.le
  have hsnd : pairs.map (·.2) = b.rows := List.map_snd_zip hlen.ge
  have htime : ∀ p ∈ pairs, Shows b.columns p.1 p.2 := fun p hp => List.forall₂_zip h.rows hp
  -- entries and rows are sorted alike, since a row has the time of its entry
  set sorted := pairs.mergeSort fun p q => decide (p.1.time ≤ q.1.time) with hsorted
  have hentries : sorted.map (·.1) =
      entries.mergeSort fun d e => decide (d.time ≤ e.time) := by
    rw [← hfst, hsorted]
    exact List.map_mergeSort fun _ _ _ _ => rfl
  have hrows : sorted.map (·.2) = b.rows.mergeSort le := by
    rw [← hsnd, hsorted]
    refine List.map_mergeSort fun p hp q hq => ?_
    show decide (p.1.time ≤ q.1.time) = decide (p.2.time ≤ q.2.time)
    rw [(htime p hp).time, (htime q hq).time]
  refine ⟨_, stablyOrdered_mergeSort Entry.time entries, h.distinct, fun c => ?_, ?_⟩
  · show c ∈ b.columns ↔ _
    rw [h.columns]
    simp only [List.mem_mergeSort]
  · show List.Forall₂ (Shows b.columns) _ (b.rows.mergeSort le)
    rw [← hentries, ← hrows, List.forall₂_map_left_iff, List.forall₂_map_right_iff]
    refine List.forall₂_same.2 fun p hp => htime p ?_
    exact List.mem_mergeSort.1 hp

theorem Holds.time {b : Batch} {entries : List Entry} (h : b.Holds entries) :
    b.rows.map (·.time) = entries.map Entry.time := by
  have heq : List.Forall₂ (· = ·) (b.rows.map (·.time)) (entries.map Entry.time) := by
    rw [List.forall₂_map_left_iff, List.forall₂_map_right_iff]
    exact h.rows.flip.imp fun _ _ hshow => hshow.time
  rwa [List.forall₂_eq_eq_eq] at heq

theorem HoldsInOrder.ordered {b : Batch} {entries : List Entry} (h : b.HoldsInOrder entries) :
    b.rows.Pairwise fun r s => r.time ≤ s.time := by
  obtain ⟨sorted, hsorted, hholds⟩ := h
  have htimes : (b.rows.map (·.time)).Pairwise (· ≤ ·) := by
    rw [hholds.time, List.pairwise_map]
    exact hsorted.ordered
  rwa [List.pairwise_map] at htimes

theorem HoldsInOrder.length_eq {b : Batch} {entries : List Entry} (h : b.HoldsInOrder entries) :
    b.rows.length = entries.length := by
  obtain ⟨sorted, hsorted, hholds⟩ := h
  rw [← hholds.rows.length_eq, hsorted.perm.length_eq]

end Batch

end SeriesPipeline
