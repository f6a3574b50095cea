import Mathlib.Data.Rat.Floor
import SeriesPipeline.Proofs.Windowing.Buckets

/-!
# Splitting in buckets

Buckets are numbered by the quotients of time, rounded down. A bucket starts at the multiple of its
number, or at the least instant where that multiple lies before it, and no two buckets with rows
start together. So rows in order of time, which are split wherever the start changes, come out with
one piece for each number, over the whole range of instants.
-/

namespace SeriesPipeline

/-! ## Starts of buckets -/

namespace Instant

variable {step : Span} {s t : Instant}

/-- The least instant stands in for one multiple only, the last one before it. -/
theorem floor_lt_floor_iff (h : 0 < step.reach) :
    s.floor step < t.floor step ↔ s.toInt / step.reach < t.toInt / step.reach := by
  rw [lt_def, toInt_floor h, toInt_floor h]
  constructor
  · intro hlt
    by_contra hge
    have hmultiple : t.toInt / step.reach * step.reach ≤ s.toInt / step.reach * step.reach :=
      Int.mul_le_mul_of_nonneg_right (not_lt.1 hge) h.le
    omega
  · intro hlt
    have hbounds := s.bounds
    have hspan := Int.lt_ediv_add_one_mul_self s.toInt h
    have hnext : (s.toInt / step.reach + 1) * step.reach ≤ t.toInt / step.reach * step.reach :=
      Int.mul_le_mul_of_nonneg_right hlt h.le
    rw [Int.add_mul, Int.one_mul] at hspan hnext
    -- the multiple of `t` lies after `s`, so it is an instant
    omega

theorem floor_le_floor (step : Span) (h : s ≤ t) : s.floor step ≤ t.floor step := by
  have hreach : 0 ≤ step.reach := by
    rw [Span.reach]
    omega
  rcases Int.lt_or_eq_of_le hreach with hpos | hzero
  · apply le_of_not_gt
    rw [floor_lt_floor_iff hpos]
    exact not_lt.2 (Int.ediv_le_ediv hpos h)
  · rwa [floor, floor, if_pos hzero.symm, if_pos hzero.symm]

end Instant

namespace Windowing

/-- The quotient of time by the bucket, rounded down. -/
def bucketNumber (bucket : Span) (t : Instant) : Int := ⌊(t.toInt : ℚ) / bucket.reach⌋

/-- The bucket of a number, as far as there are instants. -/
def numberedWindow (bucket : Span) (n : Int) : Window :=
  ⟨Instant.clamp (n * bucket.reach), (Instant.clamp (n * bucket.reach)).after bucket⟩

/-- The window of `b` starts later than that of `a`. -/
def StartsBefore (a b : Batch) : Prop := ∃ v ∈ a.window, ∃ w ∈ b.window, v.start < w.start

variable {bucket : Span} {b piece piece' : Batch} {rows : List Row} {r s : Row} {t u : Instant}

theorem bucketStart_le_bucketStart (h : t ≤ u) : bucketStart bucket t ≤ bucketStart bucket u :=
  Instant.floor_le_floor bucket h

section Numbers

variable (h : 0 < bucket.reach)
include h

theorem bucketNumber_eq (t : Instant) : bucketNumber bucket t = t.toInt / bucket.reach := by
  rw [bucketNumber, Int.floor_div_cast_of_nonneg h.le, Int.floor_intCast]

theorem bucketStart_lt_bucketStart_iff :
    bucketStart bucket t < bucketStart bucket u ↔ bucketNumber bucket t < bucketNumber bucket u := by
  rw [bucketNumber_eq h, bucketNumber_eq h]
  exact Instant.floor_lt_floor_iff h

theorem bucketNumber_eq_of_bucketStart_eq (heq : bucketStart bucket t = bucketStart bucket u) :
    bucketNumber bucket t = bucketNumber bucket u := by
  apply le_antisymm
  · rw [← not_lt, ← bucketStart_lt_bucketStart_iff h]
    exact not_lt.2 heq.le
  · rw [← not_lt, ← bucketStart_lt_bucketStart_iff h]
    exact not_lt.2 heq.ge

theorem bucketWindow_eq_numberedWindow (t : Instant) :
    bucketWindow bucket t = numberedWindow bucket (bucketNumber bucket t) := by
  have hstart : bucketStart bucket t = Instant.clamp (bucketNumber bucket t * bucket.reach) := by
    have hle := Int.ediv_mul_le t.toInt (Int.ne_of_gt h)
    have hbounds := t.bounds
    rw [← Instant.toInt_inj, bucketStart, Instant.toInt_floor h, Instant.toInt_clamp_eq,
      bucketNumber_eq h]
    omega
  rw [bucketWindow, numberedWindow, hstart]

end Numbers

/-! ## Pieces -/

/-- No row is lost or moved. -/
theorem rows_splitRows (bucket : Span) (b : Batch) (rows : List Row) :
    (splitRows bucket b rows).flatMap (·.rows) = rows := by
  induction rows with
  | nil => rfl
  | cons row rest ih =>
    rw [splitRows]
    cases hrest : splitRows bucket b rest with
    | nil =>
      rw [hrest] at ih
      rw [← ih]
      rfl
    | cons next pieces =>
      rw [hrest, List.flatMap_cons] at ih
      dsimp only
      split
      · rw [List.flatMap_cons, List.cons_append, ih]
      · rw [List.flatMap_cons, List.flatMap_cons, ih, List.singleton_append]

/-- The pieces of rows in order of time come in order of their buckets, one of each. -/
theorem pairwise_splitRows (h : rows.Pairwise fun r s => r.time ≤ s.time) (bucket : Span)
    (b : Batch) : (splitRows bucket b rows).Pairwise StartsBefore := by
  induction rows with
  | nil => exact .nil
  | cons row rest ih =>
    obtain ⟨hrow, hrest⟩ := List.pairwise_cons.1 h
    have hlater : ∀ piece ∈ splitRows bucket b rest, ∃ w ∈ piece.window,
        (bucketWindow bucket row.time).start ≤ w.start := by
      intro piece hpiece
      have hbucket := isPiece_of_mem_splitRows hpiece
      obtain ⟨r, hr⟩ := List.exists_mem_of_ne_nil _ hbucket.nonempty
      exact ⟨_, hbucket.window r hr,
        bucketStart_le_bucketStart (hrow r (hbucket.sublist.subset hr))⟩
    have hordered := ih hrest
    rw [splitRows]
    cases hpieces : splitRows bucket b rest with
    | nil => exact List.pairwise_singleton _ _
    | cons next pieces =>
      rw [hpieces] at hordered hlater
      obtain ⟨hnext, htail⟩ := List.pairwise_cons.1 hordered
      dsimp only
      split
      · exact List.pairwise_cons.2 ⟨hnext, htail⟩
      · -- the row is of an earlier bucket than the piece after it, and so than all that follow
        rename_i hstart
        obtain ⟨v, hv, hle⟩ := hlater next List.mem_cons_self
        have hlt : (bucketWindow bucket row.time).start < v.start := by
          apply lt_of_le_of_ne hle
          intro heq
          rw [show next.window = some v from hv, Option.any_some, heq] at hstart
          exact hstart (decide_eq_true rfl)
        refine List.pairwise_cons.2 ⟨fun piece hpiece => ⟨_, rfl, ?_⟩, hordered⟩
        rcases List.mem_cons.1 hpiece with rfl | hpiece
        · exact ⟨v, hv, hlt⟩
        · obtain ⟨v', hv', w, hw, hlt'⟩ := hnext piece hpiece
          cases Option.some.inj (hv.symm.trans hv')
          exact ⟨w, hw, hlt.trans hlt'⟩

theorem StartsBefore.bucketNumber_lt (h : StartsBefore piece piece') (hbucket : 0 < bucket.reach)
    (hpiece : IsPiece bucket b rows piece) (hpiece' : IsPiece bucket b rows piece')
    (hr : r ∈ piece.rows) (hs : s ∈ piece'.rows) :
    bucketNumber bucket r.time < bucketNumber bucket s.time := by
  obtain ⟨v, hv, w, hw, hlt⟩ := h
  rw [hpiece.window r hr] at hv
  rw [hpiece'.window s hs] at hw
  cases hv
  cases hw
  exact (bucketStart_lt_bucketStart_iff hbucket).1 hlt

/-- Rows of one number are in one piece, and rows of one piece have one number. -/
theorem bucketNumber_eq_iff (hbucket : 0 < bucket.reach)
    (hordered : rows.Pairwise fun r s => r.time ≤ s.time) {i j : Nat}
    (hi : i < (splitRows bucket b rows).length) (hj : j < (splitRows bucket b rows).length)
    (hr : r ∈ (splitRows bucket b rows)[i].rows) (hs : s ∈ (splitRows bucket b rows)[j].rows) :
    bucketNumber bucket r.time = bucketNumber bucket s.time ↔ i = j := by
  have hpieces := List.pairwise_iff_getElem.1 (pairwise_splitRows hordered bucket b)
  have hfirst := isPiece_of_mem_splitRows (List.getElem_mem hi)
  have hsecond := isPiece_of_mem_splitRows (List.getElem_mem hj)
  constructor
  · intro heq
    rcases Nat.lt_trichotomy i j with hij | hij | hji
    · exact absurd heq
        ((hpieces i j hi hj hij).bucketNumber_lt hbucket hfirst hsecond hr hs).ne
    · exact hij
    · exact absurd heq.symm
        ((hpieces j i hj hi hji).bucketNumber_lt hbucket hsecond hfirst hs hr).ne
  · rintro rfl
    have hsame := (hfirst.window r hr).symm.trans (hsecond.window s hs)
    exact bucketNumber_eq_of_bucketStart_eq hbucket
      (congrArg Window.start (Option.some.inj hsame))

/-- The pieces of `b`: its rows in order, those of one bucket number together, in batches like `b`
with the windows of their buckets. -/
structure Splits (bucket : Span) (b : Batch) (pieces : List Batch) : Prop where
  alike : ∀ piece ∈ pieces,
    piece.name = b.name ∧ piece.tags = b.tags ∧ piece.columns = b.columns
  nonempty : ∀ piece ∈ pieces, piece.rows ≠ []
  rows : pieces.flatMap (·.rows) = b.rows
  window : ∀ piece ∈ pieces, ∀ r ∈ piece.rows,
    piece.window = some (numberedWindow bucket (bucketNumber bucket r.time))
  encloses : ∀ piece ∈ pieces, piece.Enclosed
  together : ∀ (i j : Nat) (hi : i < pieces.length) (hj : j < pieces.length),
    ∀ r ∈ pieces[i].rows, ∀ s ∈ pieces[j].rows,
      (bucketNumber bucket r.time = bucketNumber bucket s.time ↔ i = j)
  starts : pieces.Pairwise StartsBefore

/-- Rows in order of time are split into one piece for each quotient, also next to the first and the
last instant. -/
theorem splitBuckets_one_per_quotient (hbucket : 1 ≤ bucket.nanos)
    (hordered : b.rows.Pairwise fun r s => r.time ≤ s.time)
    (hlast : ∀ r ∈ b.rows, r.time < Instant.greatest) :
    Splits bucket b (splitBuckets bucket b) := by
  have hreach := Span.reach_pos hbucket
  have hpieces : ∀ piece ∈ splitBuckets bucket b, IsPiece bucket b b.rows piece :=
    fun _ hpiece => isPiece_of_mem_splitRows hpiece
  refine ⟨?_, ?_, rows_splitRows bucket b b.rows, ?_, ?_, ?_, pairwise_splitRows hordered bucket b⟩
  · intro piece hpiece
    rw [(hpieces piece hpiece).eq]
    exact ⟨rfl, rfl, rfl⟩
  · intro piece hpiece
    exact (hpieces piece hpiece).nonempty
  · intro piece hpiece r hr
    rw [(hpieces piece hpiece).window r hr, bucketWindow_eq_numberedWindow hreach]
  · intro piece hpiece
    exact (hpieces piece hpiece).encloses hreach hlast
  · intro i j hi hj r hr s hs
    exact bucketNumber_eq_iff hreach hordered hi hj hr hs

/-- In buckets of 10 the first two rows are of a bucket that begins before the least instant, and
the last one is of a bucket that goes on past the greatest. -/
theorem splitBuckets_one_per_quotient_atEnds :
    let row (n : Int64) : Row := ⟨⟨n⟩, []⟩
    let b : Batch := ⟨"m", ∅, [],
      [row (-9223372036854775808), row (-9223372036854775801), row (-9223372036854775800), row (-1),
        row 0, row 9, row 9223372036854775806], none⟩
    (splitBuckets ⟨10⟩ b).map (fun piece => (piece.rows.length, piece.window)) =
      [(2, some ⟨.least, ⟨-9223372036854775798⟩⟩),
        (1, some ⟨⟨-9223372036854775800⟩, ⟨-9223372036854775790⟩⟩), (1, some ⟨⟨-10⟩, ⟨0⟩⟩),
        (2, some ⟨⟨0⟩, ⟨10⟩⟩), (1, some ⟨⟨9223372036854775800⟩, .greatest⟩)] ∧
    Splits ⟨10⟩ b (splitBuckets ⟨10⟩ b) := by
  intro row b
  have hordered : b.rows.Pairwise fun r s => r.time ≤ s.time := by decide
  have hlast : ∀ r ∈ b.rows, r.time < Instant.greatest := by decide
  exact ⟨by decide, splitBuckets_one_per_quotient (by decide) hordered hlast⟩

end Windowing

end SeriesPipeline
