import SeriesPipeline.Proofs.Data.Shape
import SeriesPipeline.Proofs.Windowing.Buffered

/-!
# Buckets

A pane holds rows that its window covers. When it is emitted in buckets, each piece has the rows of
one bucket, and its window contains them.
-/

namespace SeriesPipeline

namespace Instant

variable {step : Span} (h : 0 < step.reach) (t : Instant)
include h

/-- The multiple of `step` before `t`, or the least instant when that is no instant. -/
theorem toInt_floor :
    (t.floor step).toInt = max Int64.minValue.toInt (t.toInt / step.reach * step.reach) := by
  have hle := Int.ediv_mul_le t.toInt (Int.ne_of_gt h)
  have hbounds := t.bounds
  rw [floor, if_neg (Int.ne_of_gt h)]
  cases hmultiple : ofInt? (t.toInt / step.reach * step.reach) with
  | some u =>
    have hu := u.bounds
    rw [toInt_of_ofInt? hmultiple] at hu
    rw [Option.getD_some, toInt_of_ofInt? hmultiple]
    omega
  | none =>
    -- the multiple is below the least instant, which stands in for it
    rw [ofInt?, Option.map_eq_none_iff, signedWord?, dite_eq_right_iff] at hmultiple
    have hout : ¬ (Int64.minValue.toInt ≤ t.toInt / step.reach * step.reach ∧
        t.toInt / step.reach * step.reach ≤ Int64.maxValue.toInt) :=
      fun hin => Option.some_ne_none _ (hmultiple hin)
    have hleast : least.toInt = Int64.minValue.toInt := rfl
    rw [Option.getD_none]
    omega

/-- The multiple of `step` before `t` is less than a step away. -/
theorem floor_spec :
    (t.floor step).toInt ≤ t.toInt ∧ t.toInt < (t.floor step).toInt + step.reach := by
  have hle := Int.ediv_mul_le t.toInt (Int.ne_of_gt h)
  have hlt := Int.lt_ediv_add_one_mul_self t.toInt h
  have hbounds := t.bounds
  rw [Int.add_mul, Int.one_mul] at hlt
  rw [toInt_floor h]
  omega

end Instant

namespace Windowing

/-- A pane has rows, and the window that ends at `stop` covers all of them. -/
structure Covered (period every : Int) (stop : Instant) (pane : Batch) : Prop where
  nonempty : pane.rows ≠ []
  covers : ∀ t ∈ pane.times, Covers period every t stop

variable {period every : Int} {key : SeriesKey} {columns : List String} {row : Row}
  {stop t : Instant} {bucket : Span} {b piece pane : Batch}

theorem times_withRow (key : SeriesKey) (columns : List String) (row : Row)
    (pane : Option Batch) :
    (withRow key columns row pane).times = (pane.elim [] Batch.times) ++ [row.time] := by
  rw [withRow, Batch.times_pushAligned]
  cases pane <;> rfl

theorem extends_covered (hevery : 0 < every) (h : stop ∈ coveringEnds period every row.time) :
    Extends (Covered period every) key columns row stop := by
  intro pane hpane
  have htimes := times_withRow key columns row pane
  constructor
  · intro hnil
    rw [Batch.times, hnil] at htimes
    exact absurd htimes.symm (List.append_ne_nil_of_right_ne_nil _ (List.cons_ne_nil _ _))
  · intro t ht
    rw [htimes] at ht
    rcases List.mem_append.1 ht with ht | ht
    · cases pane with
      | none => cases ht
      | some b => exact (hpane b rfl).covers t ht
    · rw [List.mem_singleton.1 ht]
      exact (mem_coveringEnds hevery row.time stop).1 h

theorem contains_windowAt {period : Span} (h : Covers period.reach every t stop) :
    (windowAt period stop).contains t = true := by
  have hbounds := t.bounds
  have hstart := h.2.2
  refine Window.contains_iff.2 ⟨?_, h.2.1⟩
  rw [windowAt, Instant.before, Instant.le_def, Instant.toInt_clamp_eq]
  omega

/-! ## Pieces -/

theorem contains_bucketWindow (hbucket : 0 < bucket.reach) (ht : t < Instant.greatest) :
    (bucketWindow bucket t).contains t = true := by
  obtain ⟨hle, hlt⟩ := Instant.floor_spec hbucket t
  have hgreatest : Instant.greatest.toInt = Int64.maxValue.toInt := rfl
  refine Window.contains_iff.2 ⟨hle, ?_⟩
  rw [Instant.lt_def] at ht ⊢
  rw [bucketWindow, bucketStart, Instant.after, Instant.toInt_clamp_eq]
  omega

/-- A piece has rows, and all of them are of its bucket. -/
structure IsPiece (bucket : Span) (b : Batch) (rows : List Row) (piece : Batch) : Prop where
  eq : piece = { b with rows := piece.rows, window := piece.window }
  nonempty : piece.rows ≠ []
  sublist : piece.rows.Sublist rows
  window : ∀ r ∈ piece.rows, piece.window = some (bucketWindow bucket r.time)

theorem isPiece_singleton (bucket : Span) (b : Batch) (row : Row) (rest : List Row) :
    IsPiece bucket b (row :: rest)
      { b with rows := [row], window := some (bucketWindow bucket row.time) } where
  eq := rfl
  nonempty := List.cons_ne_nil _ _
  sublist := (List.nil_sublist rest).cons_cons row
  window r hr := by rw [List.mem_singleton.1 hr]

theorem IsPiece.cons {rows : List Row} (h : IsPiece bucket b rows piece)
    (hstart : piece.window.any (·.start = (bucketWindow bucket row.time).start)) :
    IsPiece bucket b (row :: rows) { piece with rows := row :: piece.rows } := by
  have hwindow : piece.window = some (bucketWindow bucket row.time) := by
    obtain ⟨first, hfirst⟩ := List.exists_mem_of_ne_nil _ h.nonempty
    -- the start of a bucket tells its stop
    rw [h.window first hfirst, Option.any_some, decide_eq_true_iff] at hstart
    rw [h.window first hfirst, bucketWindow, bucketWindow, show bucketStart bucket first.time = _
      from hstart]
    rfl
  refine ⟨?_, List.cons_ne_nil _ _, h.sublist.cons_cons row, ?_⟩
  · rw [h.eq]
  · intro r hr
    rcases List.mem_cons.1 hr with rfl | hr
    · exact hwindow
    · exact h.window r hr

theorem isPiece_of_mem_splitRows {rows : List Row} (h : piece ∈ splitRows bucket b rows) :
    IsPiece bucket b rows piece := by
  induction rows generalizing piece with
  | nil => cases h
  | cons row rest ih =>
    have hlater : ∀ {p}, p ∈ splitRows bucket b rest → IsPiece bucket b (row :: rest) p :=
      fun hp => ⟨(ih hp).eq, (ih hp).nonempty, (ih hp).sublist.cons _, (ih hp).window⟩
    rw [splitRows] at h
    cases hrest : splitRows bucket b rest with
    | nil =>
      rw [hrest] at h
      rw [List.mem_singleton.1 h]
      exact isPiece_singleton bucket b row rest
    | cons first pieces =>
      rw [hrest] at h hlater ih
      dsimp only at h
      split at h
      · rename_i hstart
        rcases List.mem_cons.1 h with rfl | h
        · exact (ih List.mem_cons_self).cons hstart
        · exact hlater (List.mem_cons_of_mem _ h)
      · rcases List.mem_cons.1 h with rfl | h
        · exact isPiece_singleton bucket b row rest
        · exact hlater h

/-- The rows of a piece are all of one bucket. -/
theorem IsPiece.exists_window {rows : List Row} (h : IsPiece bucket b rows piece) :
    ∃ w, piece.window = some w ∧ ∀ r ∈ piece.rows, bucketWindow bucket r.time = w := by
  obtain ⟨first, hfirst⟩ := List.exists_mem_of_ne_nil _ h.nonempty
  refine ⟨_, h.window first hfirst, fun r hr => ?_⟩
  exact Option.some.inj ((h.window r hr).symm.trans (h.window first hfirst))

theorem IsPiece.encloses {rows : List Row} (h : IsPiece bucket b rows piece)
    (hbucket : 0 < bucket.reach) (hrows : ∀ r ∈ rows, r.time < Instant.greatest) :
    piece.Enclosed := by
  obtain ⟨w, hw, hsame⟩ := h.exists_window
  refine ⟨w, hw, fun t ht => ?_⟩
  obtain ⟨r, hr, rfl⟩ := List.mem_map.1 ht
  rw [← hsame r hr]
  exact contains_bucketWindow hbucket (hrows r (h.sublist.subset hr))

/-- `b` has some rows of the pane, in order of time, and a window that contains them. -/
structure EmittedFrom (pane b : Batch) : Prop where
  columns : b.columns = pane.columns
  nonempty : b.rows ≠ []
  sublist : b.rows.Sublist pane.sortRows.rows
  encloses : b.Enclosed

theorem mem_times_of_sublist (h : b.rows.Sublist pane.sortRows.rows) (ht : t ∈ b.times) :
    t ∈ pane.times := by
  obtain ⟨r, hr, rfl⟩ := List.mem_map.1 ht
  exact List.mem_map_of_mem ((Batch.sortRows_perm pane).subset (h.subset hr))

theorem EmittedFrom.mem_times (h : EmittedFrom pane b) (ht : t ∈ b.times) : t ∈ pane.times :=
  mem_times_of_sublist h.sublist ht

/-- Whatever is emitted of a pane has the columns of the pane and some of its rows in order of time,
and not none. -/
theorem sublist_of_mem_pieces {op : Windowing} (hpane : pane.rows ≠ [])
    (h : b ∈ op.pieces stop pane) :
    b.columns = pane.columns ∧ b.rows ≠ [] ∧ b.rows.Sublist pane.sortRows.rows := by
  rw [pieces] at h
  cases hgrouping : op.grouping.bucket with
  | none =>
    rw [hgrouping] at h
    rw [List.mem_singleton.1 h]
    exact ⟨rfl, fun hnil => hpane (List.perm_nil.1 (hnil ▸ (Batch.sortRows_perm pane).symm)),
      .refl _⟩
  | some bucket =>
    rw [hgrouping] at h
    have hpiece := isPiece_of_mem_splitRows h
    exact ⟨by rw [hpiece.eq]; rfl, hpiece.nonempty, hpiece.sublist⟩

theorem encloses_of_mem_pieces {op : Windowing}
    (hbucket : ∀ bucket ∈ op.grouping.bucket, 0 < bucket.reach)
    (hpane : Covered op.period.reach every stop pane) (h : b ∈ op.pieces stop pane) :
    b.Enclosed := by
  have htimes : ∀ r ∈ pane.sortRows.rows, r.time ∈ pane.times := fun r hr =>
    List.mem_map_of_mem ((Batch.sortRows_perm pane).subset hr)
  rw [pieces] at h
  cases hgrouping : op.grouping.bucket with
  | none =>
    rw [hgrouping] at h
    rw [List.mem_singleton.1 h]
    refine ⟨_, rfl, fun t ht => ?_⟩
    obtain ⟨r, hr, rfl⟩ := List.mem_map.1 ht
    exact contains_windowAt (hpane.covers _ (htimes r hr))
  | some bucket =>
    rw [hgrouping] at h
    apply (isPiece_of_mem_splitRows h).encloses (hbucket bucket hgrouping)
    -- a covered row lies before the end of its pane, so it is not at the last instant
    intro r hr
    exact lt_of_lt_of_le (hpane.covers _ (htimes r hr)).2.1 stop.bounds.2

theorem emittedFrom_of_mem_pieces {op : Windowing}
    (hbucket : ∀ bucket ∈ op.grouping.bucket, 0 < bucket.reach)
    (hpane : Covered op.period.reach every stop pane) (h : b ∈ op.pieces stop pane) :
    EmittedFrom pane b := by
  obtain ⟨hcolumns, hnonempty, hsublist⟩ := sublist_of_mem_pieces hpane.nonempty h
  exact ⟨hcolumns, hnonempty, hsublist, encloses_of_mem_pieces hbucket hpane h⟩

end Windowing

end SeriesPipeline
