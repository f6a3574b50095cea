import Mathlib.Data.List.DropRight
import SeriesPipeline.Proofs.Alerting.Notifications
import SeriesPipeline.Proofs.Decimal.Order

/-!
# Hysteresis of flap detectors

A detector keeps the latest levels and a flag. Both are told here by all levels recorded so far: the
flag is on since a rate that reached the upper bound, if no rate after it fell to the lower one.
-/

namespace SeriesPipeline.FlapDetector

/-- A new detector that has been fed some levels. -/
def fed (bounds : FlapBounds) (capacity : Nat) (levels : List Level) : FlapDetector :=
  levels.foldl record (.new bounds capacity)

/-- How many of the levels from number `first` up to, not including, number `last` are followed by
a different one. -/
def changesBetween (levels : List Level) (first last : Nat) : Nat :=
  (List.range' first (last - first)).countP fun i => levels[i]? ≠ levels[i + 1]?

/-- The change rate after `k` records, in percent, as doubles are computed with: of the pairs of
neighbours among the latest levels, no more than `capacity`, those that differ. Without a pair it is
zero. -/
def rateAfter (capacity : Nat) (levels : List Level) (k : Nat) : Float :=
  let pairs := min k capacity - 1
  if pairs = 0 then 0.0
  else Float.ofNat (changesBetween levels (k - 1 - pairs) (k - 1)) / Float.ofNat pairs * 100.0

/-- No rate after a record both reaches the upper bound and falls to the lower one. -/
def Separates (bounds : FlapBounds) (capacity : Nat) (levels : List Level) : Prop :=
  ∀ k, 1 ≤ k → k ≤ levels.length →
    ¬ (bounds.high ≤ rateAfter capacity levels k ∧ rateAfter capacity levels k ≤ bounds.low)

/-- After `n` records, the upper bound has been reached and the lower one not since. Records are
counted from one. -/
def HasReached (bounds : FlapBounds) (capacity : Nat) (levels : List Level) (n : Nat) : Prop :=
  ∃ i, 1 ≤ i ∧ i ≤ n ∧ bounds.high ≤ rateAfter capacity levels i ∧
    ∀ j, i < j → j ≤ n → ¬ rateAfter capacity levels j ≤ bounds.low

variable {bounds : FlapBounds} {capacity k n : Nat} {levels history : List Level} {level : Level}

theorem fed_concat (levels : List Level) (level : Level) :
    fed bounds capacity (levels ++ [level]) = (fed bounds capacity levels).record level := by
  rw [fed, List.foldl_append]
  rfl

theorem fed_take_succ (hn : n < levels.length) :
    fed bounds capacity (levels.take (n + 1)) =
      (fed bounds capacity (levels.take n)).record levels[n] := by
  rw [← List.take_append_getElem hn, fed_concat]

theorem bounds_fed (levels : List Level) :
    (fed bounds capacity levels).bounds = bounds ∧
      (fed bounds capacity levels).capacity = capacity := by
  induction levels using List.reverseRecOn with
  | nil => exact ⟨rfl, rfl⟩
  | append_singleton levels level ih =>
    rw [fed_concat]
    exact ih

/-- The latest levels are kept, as many as there is room for. -/
theorem history_fed (hcapacity : 0 < capacity) (levels : List Level) :
    (fed bounds capacity levels).history = levels.rtake capacity := by
  induction levels using List.reverseRecOn with
  | nil => exact (List.rtake_nil capacity).symm
  | append_singleton levels level ih =>
    rw [fed_concat, record, ih, (bounds_fed levels).2, List.rtake, List.rtake,
      List.length_drop, List.length_append, List.length_singleton,
      List.drop_append_of_le_length (by omega)]
    by_cases hfull : capacity ≤ levels.length
    · have hdrop : levels.length + 1 - capacity = levels.length - capacity + 1 := by omega
      rw [if_pos (by omega), List.tail_drop, hdrop]
    · have hdrop : levels.length + 1 - capacity = levels.length - capacity := by omega
      rw [if_neg (by omega), hdrop]

/-! ## Rates -/

theorem changes_eq (history : List Level) :
    changes history =
      (List.range (history.length - 1)).countP fun i => history[i]? ≠ history[i + 1]? := by
  induction history with
  | nil => rfl
  | cons first rest ih =>
    cases rest with
    | nil => rfl
    | cons second rest =>
      simp only [List.length_cons, Nat.add_sub_cancel] at ih ⊢
      rw [changes_cons_cons, ih, List.range_succ_eq_map, List.countP_cons, List.countP_map]
      congr 1
      simp

theorem changes_drop (levels : List Level) (first : Nat) :
    changes (levels.drop first) = changesBetween levels first (levels.length - 1) := by
  rw [changes_eq, changesBetween, List.range'_eq_map_range, List.countP_map, List.length_drop,
    Nat.sub_right_comm]
  refine List.countP_congr fun i _ => ?_
  rw [List.getElem?_drop, List.getElem?_drop]
  rfl

/-- Later levels do not matter. -/
theorem changesBetween_take (levels : List Level) (first k : Nat) :
    changesBetween (levels.take k) first (k - 1) = changesBetween levels first (k - 1) := by
  refine List.countP_congr fun i hi => ?_
  have hlt : i + 1 < k := by
    have := List.mem_range'_1.1 hi
    omega
  rw [List.getElem?_take_of_lt (Nat.lt_of_succ_lt hlt), List.getElem?_take_of_lt hlt]

theorem rate_fed (hcapacity : 0 < capacity) (hk : k ≤ levels.length) :
    (fed bounds capacity (levels.take k)).rate = rateAfter capacity levels k := by
  have hlength : (levels.take k).length = k := List.length_take_of_le hk
  have hchanges := changes_drop (levels.take k) (k - capacity)
  rw [hlength, changesBetween_take] at hchanges
  rw [rate, history_fed hcapacity, List.rtake, hlength, rateOf, List.length_drop, hlength,
    hchanges, rateAfter]
  by_cases hpairs : min k capacity - 1 = 0
  · rw [if_pos (by omega), if_pos hpairs]
  · rw [if_neg (by omega), if_neg hpairs]
    congr 4 <;> omega

/-! ## The flag -/

theorem flapping_record (d : FlapDetector) (level : Level) :
    (d.record level).flapping =
      if d.flapping then !decide ((d.record level).rate ≤ d.bounds.low)
      else decide (d.bounds.high ≤ (d.record level).rate) :=
  rfl

theorem flapping_fed_succ (hcapacity : 0 < capacity) (hn : n < levels.length) :
    (fed bounds capacity (levels.take (n + 1))).flapping =
      if (fed bounds capacity (levels.take n)).flapping then
        !decide (rateAfter capacity levels (n + 1) ≤ bounds.low)
      else decide (bounds.high ≤ rateAfter capacity levels (n + 1)) := by
  have hrate : (fed bounds capacity (levels.take (n + 1))).rate = _ :=
    rate_fed hcapacity (Nat.succ_le_of_lt hn)
  rw [fed_take_succ hn] at hrate ⊢
  rw [flapping_record, hrate, (bounds_fed _).1]

theorem hasReached_zero : ¬ HasReached bounds capacity levels 0 := by
  rintro ⟨i, hone, hle, -⟩
  omega

/-- One record more turns the flag on or leaves it on. -/
theorem hasReached_succ_iff :
    HasReached bounds capacity levels (n + 1) ↔
      bounds.high ≤ rateAfter capacity levels (n + 1) ∨
        HasReached bounds capacity levels n ∧
          ¬ rateAfter capacity levels (n + 1) ≤ bounds.low := by
  constructor
  · rintro ⟨i, hone, hle, hhigh, hlow⟩
    rcases Nat.lt_or_eq_of_le hle with hlt | rfl
    · exact .inr ⟨⟨i, hone, Nat.le_of_lt_succ hlt, hhigh,
        fun j hij hj => hlow j hij (Nat.le_succ_of_le hj)⟩, hlow (n + 1) hlt (Nat.le_refl _)⟩
    · exact .inl hhigh
  · rintro (hhigh | ⟨⟨i, hone, hle, hhigh, hlow⟩, hlast⟩)
    · exact ⟨n + 1, Nat.succ_pos n, Nat.le_refl _, hhigh, fun j hij hj => by omega⟩
    · refine ⟨i, hone, Nat.le_succ_of_le hle, hhigh, fun j hij hj => ?_⟩
      rcases Nat.lt_or_eq_of_le hj with hlt | rfl
      · exact hlow j hij (Nat.le_of_lt_succ hlt)
      · exact hlast

theorem flapping_fed_iff (hcapacity : 0 < capacity) (hsep : Separates bounds capacity levels)
    (hn : n ≤ levels.length) :
    (fed bounds capacity (levels.take n)).flapping = true ↔
      HasReached bounds capacity levels n := by
  induction n with
  | zero => exact iff_of_false Bool.false_ne_true hasReached_zero
  | succ n ih =>
    have hboth := hsep (n + 1) (Nat.succ_pos n) hn
    rw [flapping_fed_succ hcapacity hn, hasReached_succ_iff,
      ← ih (Nat.le_of_succ_le hn)]
    cases (fed bounds capacity (levels.take n)).flapping with
    | false => simp
    | true =>
      simp only [if_true, Bool.not_eq_true', decide_eq_false_iff_not, true_and]
      -- a rate that turns the flag on does not turn it off, since the bounds are apart
      exact ⟨.inr, fun h => h.elim (fun hhigh hlow => hboth ⟨hhigh, hlow⟩) id⟩

theorem separates_of_lt (h : bounds.low < bounds.high) (capacity : Nat) (levels : List Level) :
    Separates bounds capacity levels :=
  fun _ _ _ hboth => Decimal.not_le_of_lt_of_le h hboth.1 hboth.2

/-- What a detector keeps and whether it is flapping, by the whole past. -/
theorem flapping_iff_hasReached (hcapacity : 2 ≤ capacity) (hsep : Separates bounds capacity levels)
    (hn : n ≤ levels.length) :
    (fed bounds capacity (levels.take n)).history = (levels.take n).rtake (min n capacity) ∧
      ((fed bounds capacity (levels.take n)).flapping = true ↔
        HasReached bounds capacity levels n) := by
  refine ⟨?_, flapping_fed_iff (by omega) hsep hn⟩
  rw [history_fed (by omega), List.rtake, List.rtake, List.length_take_of_le hn]
  congr 1
  omega

/-- Once reached, the rate 50 is left for 33 and the detector is still flapping; at 0 it is not. -/
theorem flapping_iff_hasReached_inBand :
    HasReached ⟨25, 50⟩ 4 [.alerting, .ok, .ok, .ok, .ok] 4 ∧
      ¬ HasReached ⟨25, 50⟩ 4 [.alerting, .ok, .ok, .ok, .ok] 5 :=
  have hsep : Separates ⟨25, 50⟩ 4 [.alerting, .ok, .ok, .ok, .ok] :=
    separates_of_lt (by decide) 4 _
  ⟨(flapping_iff_hasReached (by decide) hsep (by decide)).2.1 (by decide),
    fun h => absurd ((flapping_iff_hasReached (by decide) hsep (by decide)).2.2 h) (by decide)⟩

end SeriesPipeline.FlapDetector
