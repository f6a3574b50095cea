import Mathlib.Data.List.Forall2
import SeriesPipeline.Data.Series
import SeriesPipeline.Proofs.Data.Shape
import SeriesPipeline.Proofs.Time.Rfc3339

/-!
# Batches and their series

A series is a batch exactly when its first column is the time and every row has a cell per column,
the first of which is an integer or a written time. A batch is got back from its series, but for
the window. A series is got back from its batch with each time in the text of its instant.
-/

namespace SeriesPipeline.Series

/-- The cell stands for `n` nanoseconds since the epoch. -/
inductive IsTime : Value → Int → Prop where
  | int (n : Int64) : IsTime (.int n) n.toInt
  | text {s : String} {stamp : Rfc3339.Stamp} (h : Rfc3339.Denotes s.toList stamp) :
    IsTime (.text s) stamp.toInt

/-- The series has the form of a batch. -/
structure Timed (s : Series) : Prop where
  columns : s.columns.head? = some timeColumn
  width : ∀ cells ∈ s.values, cells.length = s.columns.length
  time : ∀ cells ∈ s.values, ∃ cell ∈ cells.head?, ∃ n, IsTime cell n

/-- The cells with the time in the text of its instant, where it is an instant at all. -/
inductive Restates : List Value → List Value → Prop where
  | row {cell : Value} {values : List Value} {n : Int} {t : Instant} (htime : IsTime cell n)
    (hinstant : ∀ u : Instant, u.toInt = n → t = u) :
    Restates (cell :: values) (.text t.text :: values)

/-- The cells are those of the row behind its time. -/
structure Reads (width : Nat) (cells : List Value) (r : Row) : Prop where
  width : cells.length = width
  cells : ∃ cell, cells = cell :: r.values ∧ timeOf? cell = some r.time

variable {s : Series} {b : Batch} {cells : List Value} {cell : Value} {r : Row} {t : Instant}

/-! ## Times -/

theorem timeOf?_eq_some_iff :
    timeOf? cell = some t ↔ ∃ n, IsTime cell n ∧ t = (Instant.ofInt? n).getD .greatest := by
  constructor
  · intro h
    cases cell with
    | int n =>
      cases h
      refine ⟨n.toInt, .int n, ?_⟩
      rw [show n.toInt = (⟨n⟩ : Instant).toInt from rfl, Instant.ofInt?_toInt]
      rfl
    | text s =>
      -- a time past the last instant is read as the last one
      obtain ⟨stamp, hstamp, rfl⟩ := Option.map_eq_some_iff.1 h
      exact ⟨stamp.toInt, .text (Rfc3339.stamp?_eq_some_iff.1 hstamp), rfl⟩
    | null => cases h
    | bool b => cases h
    | float x => cases h
  · rintro ⟨n, htime, rfl⟩
    cases htime with
    | int n =>
      rw [show n.toInt = (⟨n⟩ : Instant).toInt from rfl, Instant.ofInt?_toInt]
      rfl
    | text hstamp =>
      rw [timeOf?, Instant.ofText?, Rfc3339.stamp?_eq_some_iff.2 hstamp]
      rfl

theorem isSome_timeOf?_iff : (∃ t, timeOf? cell = some t) ↔ ∃ n, IsTime cell n := by
  simp only [timeOf?_eq_some_iff]
  constructor
  · rintro ⟨_, n, htime, -⟩
    exact ⟨n, htime⟩
  · rintro ⟨n, htime⟩
    exact ⟨_, n, htime, rfl⟩

theorem isTime_text (t : Instant) : IsTime (.text t.text) t.toInt := by
  obtain ⟨stamp, hstamp, hinstant⟩ := Rfc3339.exists_denotes_render t
  rw [← hinstant]
  exact .text (by rwa [Instant.text, String.toList_ofList])

theorem restates_of_timeOf? {values : List Value} (h : timeOf? cell = some t) :
    Restates (cell :: values) (.text t.text :: values) := by
  obtain ⟨n, htime, rfl⟩ := timeOf?_eq_some_iff.1 h
  refine .row htime ?_
  rintro u rfl
  rw [Instant.ofInt?_toInt]
  rfl

/-! ## Rows -/

theorem toRow_eq_ok_iff {name : String} {width i : Nat} :
    toRow name width i cells = .ok r ↔ Reads width cells r := by
  constructor
  · intro h
    unfold toRow at h
    split at h
    · cases h
    · rename_i hwidth
      cases cells with
      | nil => cases h
      | cons cell values =>
        dsimp only at h
        split at h
        · rename_i t ht
          cases h
          exact ⟨not_not.1 hwidth, cell, rfl, ht⟩
        · cases h
  · rintro ⟨hwidth, cell, rfl, ht⟩
    simp only [toRow, hwidth, ne_eq, not_true_eq_false, if_false, ht]

/-- A row can be read from the cells. -/
theorem exists_reads_iff {width : Nat} :
    (∃ r, Reads width cells r) ↔
      cells.length = width ∧ ∃ cell ∈ cells.head?, ∃ n, IsTime cell n := by
  constructor
  · rintro ⟨r, hwidth, cell, rfl, ht⟩
    exact ⟨hwidth, cell, rfl, isSome_timeOf?_iff.1 ⟨_, ht⟩⟩
  · rintro ⟨hwidth, cell, hcell, htime⟩
    obtain ⟨values, rfl⟩ := List.head?_eq_some_iff.1 hcell
    obtain ⟨t, ht⟩ := isSome_timeOf?_iff.2 htime
    exact ⟨⟨t, values⟩, hwidth, cell, rfl, ht⟩

theorem reads_ofRow {width : Nat} (h : r.values.length = width) : Reads (width + 1) (ofRow r) r :=
  ⟨congrArg (· + 1) h, _, rfl, Instant.ofText?_text r.time⟩

theorem Reads.restates {width : Nat} (h : Reads width cells r) : Restates cells (ofRow r) := by
  obtain ⟨-, cell, rfl, ht⟩ := h
  exact restates_of_timeOf? ht

theorem toRows_eq_ok_iff {name : String} {width i : Nat} {values : List (List Value)}
    {rows : List Row} :
    toRows name width i values = .ok rows ↔ List.Forall₂ (Reads width) values rows := by
  induction values generalizing i rows with
  | nil =>
    rw [toRows, List.forall₂_nil_left_iff, Except.ok.injEq]
    exact eq_comm
  | cons cells rest ih =>
    have hcells : ∀ r, Reads width cells r ↔ toRow name width i cells = .ok r :=
      fun _ => toRow_eq_ok_iff.symm
    have hrest : ∀ rows, List.Forall₂ (Reads width) rest rows ↔
        toRows name width (i + 1) rest = .ok rows := fun _ => ih.symm
    -- with both sides about `toRow` and `toRows`, only their results are left to go through
    rw [List.forall₂_cons_left_iff, toRows]
    simp only [hcells, hrest]
    cases toRow name width i cells with
    | error e => simp [bind, Except.bind]
    | ok row =>
      cases toRows name width (i + 1) rest with
      | error e => simp [bind, Except.bind]
      | ok rest => simp [bind, Except.bind, pure, Except.pure, eq_comm]

theorem exists_forall₂_reads {width : Nat} {values : List (List Value)}
    (h : ∀ cells ∈ values, ∃ r, Reads width cells r) :
    ∃ rows, List.Forall₂ (Reads width) values rows := by
  induction values with
  | nil => exact ⟨[], .nil⟩
  | cons cells rest ih =>
    obtain ⟨hcells, hrest⟩ := List.forall_mem_cons.1 h
    obtain ⟨r, hr⟩ := hcells
    obtain ⟨rows, hrows⟩ := ih hrest
    exact ⟨r :: rows, .cons hr hrows⟩

/-! ## The whole -/

theorem toBatch_eq_ok_iff :
    s.toBatch = .ok b ↔ s.columns = timeColumn :: b.columns ∧
      b = ⟨s.name, s.tags, b.columns, b.rows, none⟩ ∧
        List.Forall₂ (Reads s.columns.length) s.values b.rows := by
  constructor
  · intro h
    unfold toBatch at h
    split at h
    · rename_i first columns hcolumns
      split at h
      · rename_i hfirst
        cases hrows : toRows s.name s.columns.length 0 s.values with
        | error e =>
          rw [hrows] at h
          cases h
        | ok rows =>
          rw [hrows] at h
          cases h
          exact ⟨hfirst ▸ hcolumns, rfl, toRows_eq_ok_iff.1 hrows⟩
      · cases h
    · cases h
  · rintro ⟨hcolumns, hb, hrows⟩
    have hread : toRows s.name s.columns.length 0 s.values = .ok b.rows := toRows_eq_ok_iff.2 hrows
    simp only [toBatch, hcolumns, if_true] at hread ⊢
    rw [hread, hb]
    rfl

theorem exists_toBatch_iff : (∃ b, s.toBatch = .ok b) ↔ s.Timed := by
  constructor
  · rintro ⟨b, h⟩
    obtain ⟨hcolumns, -, hrows⟩ := toBatch_eq_ok_iff.1 h
    have hreads : ∀ cells ∈ s.values, ∃ r, Reads s.columns.length cells r := by
      intro cells hcells
      obtain ⟨i, hi, rfl⟩ := List.getElem_of_mem hcells
      exact ⟨_, hrows.get hi (hrows.length_eq ▸ hi)⟩
    exact {
      columns := by rw [hcolumns, List.head?_cons]
      width := fun cells hcells => (exists_reads_iff.1 (hreads cells hcells)).1
      time := fun cells hcells => (exists_reads_iff.1 (hreads cells hcells)).2 }
  · intro h
    obtain ⟨columns, hcolumns⟩ := List.head?_eq_some_iff.1 h.columns
    obtain ⟨rows, hrows⟩ := exists_forall₂_reads fun cells hcells =>
      exists_reads_iff.2 ⟨h.width cells hcells, h.time cells hcells⟩
    exact ⟨⟨s.name, s.tags, columns, rows, none⟩, toBatch_eq_ok_iff.2 ⟨hcolumns, rfl, hrows⟩⟩

theorem toBatch_ofBatch (h : b.Rectangular) :
    (ofBatch b).toBatch = .ok { b with window := none } := by
  refine toBatch_eq_ok_iff.2 ⟨rfl, rfl, ?_⟩
  exact List.forall₂_map_left_iff.2 (List.forall₂_same.2 fun r hr => reads_ofRow (h r hr))

/-- The series is what is written of the batch: its name and tags, its columns behind that of the
time, and row by row the text of the time and then the values. It is read as the batch. -/
structure Writes (s : Series) (b : Batch) : Prop where
  name : s.name = b.name
  tags : s.tags = b.tags
  columns : s.columns = "time" :: b.columns
  values : List.Forall₂ (fun cells r => ∃ text, cells = .text text :: r.values ∧
    IsTime (.text text) r.time.toInt) s.values b.rows
  read : b.Rectangular → s.toBatch = .ok { b with window := none }

theorem writes_ofBatch (b : Batch) : (ofBatch b).Writes b where
  name := rfl
  tags := rfl
  columns := rfl
  values := List.forall₂_map_left_iff.2
    (List.forall₂_same.2 fun r _ => ⟨r.time.text, rfl, isTime_text r.time⟩)
  read := toBatch_ofBatch

theorem restates_ofBatch (h : s.toBatch = .ok b) :
    (ofBatch b).name = s.name ∧ (ofBatch b).tags = s.tags ∧ (ofBatch b).columns = s.columns ∧
      List.Forall₂ Restates s.values (ofBatch b).values := by
  obtain ⟨hcolumns, hb, hrows⟩ := toBatch_eq_ok_iff.1 h
  refine ⟨?_, ?_, hcolumns.symm, List.forall₂_map_right_iff.2 (hrows.imp fun _ _ => Reads.restates)⟩
  · rw [hb]
    rfl
  · rw [hb]
    rfl

/-- Both conversions are exact. The text of an instant stands for that instant and is read as it. A
batch as wide as its columns is got back from its series without its window. A series is a batch
exactly when it has the form of one, and then the series of that batch is the same but for the
texts of the times. -/
theorem conversions_exact :
    (∀ t : Instant, IsTime (.text t.text) t.toInt ∧ Instant.ofText? t.text = some t) ∧
      (∀ b : Batch, b.Rectangular → (ofBatch b).toBatch = .ok { b with window := none }) ∧
      ∀ s : Series, ((∃ b, s.toBatch = .ok b) ↔ s.Timed) ∧
        ∀ b, s.toBatch = .ok b → (ofBatch b).name = s.name ∧ (ofBatch b).tags = s.tags ∧
          (ofBatch b).columns = s.columns ∧ List.Forall₂ Restates s.values (ofBatch b).values :=
  ⟨fun t => ⟨isTime_text t, Instant.ofText?_text t⟩, fun _ => toBatch_ofBatch,
    fun _ => ⟨exists_toBatch_iff, fun _ => restates_ofBatch⟩⟩

/-- A row before the epoch, a row timed by an integer and one timed in another zone. -/
theorem conversions_exact_of_two :
    (ofBatch ⟨"m", ∅, ["v"], [⟨⟨-1⟩, [.null]⟩], some ⟨⟨-5⟩, ⟨5⟩⟩⟩).toBatch =
        .ok ⟨"m", ∅, ["v"], [⟨⟨-1⟩, [.null]⟩], none⟩ ∧
      List.Forall₂ Restates
        [[.int 5, .bool true], [.text "1970-01-01t01:00:00.5+01:00", .int 7]]
        [[.text (⟨5⟩ : Instant).text, .bool true],
          [.text (⟨500000000⟩ : Instant).text, .int 7]] := by
  have hrows : (⟨"m", ∅, ["time", "v"],
      [[.int 5, .bool true], [.text "1970-01-01t01:00:00.5+01:00", .int 7]]⟩ : Series).toBatch =
        .ok ⟨"m", ∅, ["v"], [⟨⟨5⟩, [.bool true]⟩, ⟨⟨500000000⟩, [.int 7]⟩], none⟩ := by
    rfl
  obtain ⟨-, hbatch, hseries⟩ := conversions_exact
  exact ⟨hbatch _ (by simp [Batch.Rectangular]), ((hseries _).2 _ hrows).2.2.2⟩

end SeriesPipeline.Series
