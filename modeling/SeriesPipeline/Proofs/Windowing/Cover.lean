import Mathlib.Data.List.Nodup
import SeriesPipeline.Operator.Windowing
import SeriesPipeline.Proofs.Time.Order

/-!
# Windows that cover an instant

The ends that a row is placed under are exactly the multiples of `every` that come after the row
and lie at most `period` after it, as far as they are instants, and none is listed twice.
-/

namespace SeriesPipeline.Windowing

/-- The window that ends at `stop` is one of the windows, and `t` lies in it. -/
def Covers (period every : Int) (t stop : Instant) : Prop :=
  every ∣ stop.toInt ∧ t < stop ∧ stop.toInt - period ≤ t.toInt

instance (period every : Int) (t stop : Instant) : Decidable (Covers period every t stop) :=
  inferInstanceAs (Decidable (_ ∧ _ ∧ _))

variable {period every : Int}

theorem steps_nonneg (hevery : 0 < every) (k : Nat) : 0 ≤ (k : Int) * every :=
  Int.mul_nonneg (Int.natCast_nonneg k) (Int.le_of_lt hevery)

theorem lt_count_iff (hevery : 0 < every) (first last : Int) (k : Nat) :
    k < (if last < first then 0 else ((last - first) / every + 1).toNat) ↔
      first + k * every ≤ last := by
  have hk := steps_nonneg hevery k
  split
  · omega
  · have hdiv : (k : Int) ≤ (last - first) / every ↔ k * every ≤ last - first :=
      Int.le_ediv_iff_mul_le hevery
    omega

theorem lt_first (hevery : 0 < every) (t : Int) : t < (t / every + 1) * every :=
  Int.lt_ediv_add_one_mul_self t hevery

theorem mem_coveringEnds_iff (hevery : 0 < every) (t stop : Instant) :
    stop ∈ coveringEnds period every t ↔ ∃ k : Nat,
      stop.toInt = (t.toInt / every + 1) * every + k * every ∧ stop.toInt ≤ t.toInt + period := by
  have hfirst := lt_first hevery t.toInt
  have ht := t.bounds
  have hgreatest : Instant.greatest.toInt = Int64.maxValue.toInt := rfl
  rw [coveringEnds]
  simp only [List.mem_map, List.mem_range, lt_count_iff hevery]
  constructor
  · rintro ⟨k, hk, rfl⟩
    have hpos := steps_nonneg hevery k
    -- clamping changes nothing, since the end is after `t` and not after the last instant
    rw [Instant.toInt_clamp (by omega) (by omega)]
    exact ⟨k, rfl, by omega⟩
  · rintro ⟨k, hk, hle⟩
    have hstop := stop.bounds
    refine ⟨k, by omega, Instant.toInt_inj.1 ?_⟩
    rw [← hk, Instant.toInt_clamp hstop.1 hstop.2]

/-- The ends listed for an instant are those of the windows that cover it. -/
theorem mem_coveringEnds (hevery : 0 < every) (t stop : Instant) :
    stop ∈ coveringEnds period every t ↔ Covers period every t stop := by
  rw [mem_coveringEnds_iff hevery, Covers, Instant.lt_def]
  constructor
  · rintro ⟨k, hk, hle⟩
    have hfirst := lt_first hevery t.toInt
    have hpos := steps_nonneg hevery k
    refine ⟨⟨t.toInt / every + 1 + k, ?_⟩, by omega, by omega⟩
    rw [hk, Int.mul_comm every, Int.add_mul _ (k : Int)]
  · rintro ⟨⟨m, hm⟩, hlt, hle⟩
    have hquot : t.toInt / every < m := by
      apply Int.ediv_lt_of_lt_mul hevery
      rw [Int.mul_comm, ← hm]
      exact hlt
    -- `m` counts multiples from zero, and the list from the first one after `t`
    refine ⟨(m - (t.toInt / every + 1)).toNat, ?_, by omega⟩
    rw [Int.toNat_of_nonneg (by omega), ← Int.add_mul, hm, Int.mul_comm every]
    congr 1
    omega

theorem nodup_coveringEnds (hevery : 0 < every) (t : Instant) :
    (coveringEnds period every t).Nodup := by
  have hfirst := lt_first hevery t.toInt
  have ht := t.bounds
  have hgreatest : Instant.greatest.toInt = Int64.maxValue.toInt := rfl
  rw [coveringEnds]
  refine List.Nodup.map_on ?_ List.nodup_range
  intro j hj k hk heq
  rw [List.mem_range, lt_count_iff hevery] at hj hk
  have hjpos := steps_nonneg hevery j
  have hkpos := steps_nonneg hevery k
  have hends := congrArg Instant.toInt heq
  rw [Instant.toInt_clamp (by omega) (by omega), Instant.toInt_clamp (by omega) (by omega)] at hends
  have hmul : (j : Int) * every = k * every := by omega
  exact Int.ofNat_inj.1 (Int.eq_of_mul_eq_mul_right (Int.ne_of_gt hevery) hmul)

end SeriesPipeline.Windowing
