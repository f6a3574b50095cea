import Mathlib

/-!
# Rounding to 53 bits

A number is rounded to its first 53 bits: to the nearest of the numbers with no more than these, and
to the one with an even last bit if two are equally near. Rounding keeps the order of numbers, and
keeps numbers of no more than 53 bits as they are.
-/

namespace SeriesPipeline.Decimal

/-- The integer nearest to `n / 2 ^ k`, of two the even one. -/
def roundedQuotient (n k : Nat) : Nat :=
  if 2 * (n % 2 ^ k) < 2 ^ k ∨ 2 * (n % 2 ^ k) = 2 ^ k ∧ n / 2 ^ k % 2 = 0 then n / 2 ^ k
  else n / 2 ^ k + 1

/-- How many bits of `n` come after the first 53. -/
def spareBits (n : Nat) : Nat := n.log2 - 52

def roundedNat (n : Nat) : Nat := roundedQuotient n (spareBits n) * 2 ^ spareBits n

/-- The nearest integer of the sign of `n` with no more than 53 bits and zeros after them. -/
def roundedInt : Int → Int
  | .ofNat n => roundedNat n
  | .negSucc n => -(roundedNat (n + 1) : Int)

variable {m n k : Nat}

theorem roundedQuotient_zero (n : Nat) : roundedQuotient n 0 = n := by
  simp [roundedQuotient, Nat.mod_one]

theorem div_le_roundedQuotient (n k : Nat) :
    n / 2 ^ k ≤ roundedQuotient n k ∧ roundedQuotient n k ≤ n / 2 ^ k + 1 := by
  rw [roundedQuotient]
  split <;> omega

/-- Zeros at the end do not matter. -/
theorem roundedQuotient_mul (n j k : Nat) :
    roundedQuotient (n * 2 ^ j) (k + j) = roundedQuotient n k := by
  have hpos : 0 < 2 ^ j := Nat.two_pow_pos j
  have hdiv : n * 2 ^ j / 2 ^ (k + j) = n / 2 ^ k := by
    rw [Nat.pow_add, Nat.mul_div_mul_right _ _ hpos]
  have hmod : n * 2 ^ j % 2 ^ (k + j) = n % 2 ^ k * 2 ^ j := by
    rw [Nat.pow_add, Nat.mul_mod_mul_right]
  rw [roundedQuotient, roundedQuotient, hdiv, hmod, Nat.pow_add, ← Nat.mul_assoc]
  simp only [Nat.mul_lt_mul_right hpos, Nat.mul_left_inj (Nat.ne_of_gt hpos)]

theorem roundedQuotient_le_roundedQuotient (h : m ≤ n) (k : Nat) :
    roundedQuotient m k ≤ roundedQuotient n k := by
  rcases Nat.lt_or_eq_of_le (Nat.div_le_div_right (c := 2 ^ k) h) with hlt | heq
  · exact Nat.le_trans (div_le_roundedQuotient m k).2
      (Nat.le_trans hlt (div_le_roundedQuotient n k).1)
  · -- with the same quotient, the remainders are in the same order
    have hmod : m % 2 ^ k ≤ n % 2 ^ k := by
      have hm := Nat.div_add_mod m (2 ^ k)
      have hn := Nat.div_add_mod n (2 ^ k)
      rw [heq] at hm
      omega
    rw [roundedQuotient, roundedQuotient, heq]
    split <;> split <;> omega

theorem roundedQuotient_bounds (h : 2 ^ 52 ≤ n) :
    2 ^ 52 ≤ roundedQuotient n (spareBits n) ∧ roundedQuotient n (spareBits n) ≤ 2 ^ 53 := by
  have hn : n ≠ 0 := by omega
  have hlog : 52 ≤ n.log2 := (Nat.le_log2 hn).2 h
  have hlow : 2 ^ 52 * 2 ^ spareBits n ≤ n := by
    rw [← Nat.pow_add, spareBits, Nat.add_sub_cancel' hlog]
    exact Nat.log2_self_le hn
  have hhigh : n < 2 ^ 53 * 2 ^ spareBits n := by
    rw [← Nat.pow_add, spareBits, show 53 + (n.log2 - 52) = n.log2 + 1 by omega]
    exact Nat.lt_log2_self
  have hpos : 0 < 2 ^ spareBits n := Nat.two_pow_pos _
  obtain ⟨hle, hge⟩ := div_le_roundedQuotient n (spareBits n)
  exact ⟨Nat.le_trans ((Nat.le_div_iff_mul_le hpos).2 hlow) hle,
    Nat.le_trans hge (Nat.succ_le_of_lt ((Nat.div_lt_iff_lt_mul hpos).2 hhigh))⟩

/-! ## Numbers of few bits -/

theorem spareBits_of_lt (h : n < 2 ^ 53) : spareBits n = 0 := by
  by_cases hn : n = 0
  · rw [hn]
    rfl
  · have hlog : n.log2 < 53 := (Nat.log2_lt hn).2 h
    rw [spareBits]
    omega

theorem spareBits_two_pow : spareBits (2 ^ 53) = 1 := by
  decide +kernel

theorem spareBits_mul (k : Nat) (hlow : 2 ^ 52 ≤ m) : spareBits (m * 2 ^ k) = spareBits m + k := by
  have hm : m ≠ 0 := by omega
  have hlog : (m * 2 ^ k).log2 = m.log2 + k := by
    rw [Nat.log2_eq_iff (Nat.mul_ne_zero hm (Nat.ne_of_gt (Nat.two_pow_pos k))), Nat.pow_add,
      Nat.add_right_comm, Nat.pow_add]
    exact ⟨Nat.mul_le_mul_right _ (Nat.log2_self_le hm),
      Nat.mul_lt_mul_of_pos_right Nat.lt_log2_self (Nat.two_pow_pos k)⟩
  have hlog' : 52 ≤ m.log2 := (Nat.le_log2 hm).2 hlow
  rw [spareBits, spareBits, hlog]
  omega

/-- A number of 53 or 54 bits loses no more than a zero. -/
theorem div_spareBits_mul (hlow : 2 ^ 52 ≤ n) (hhigh : n ≤ 2 ^ 53) :
    n / 2 ^ spareBits n * 2 ^ spareBits n = n ∧
      2 ^ 52 ≤ n / 2 ^ spareBits n ∧ n / 2 ^ spareBits n < 2 ^ 53 ∧ spareBits n ≤ 1 := by
  rcases Nat.lt_or_eq_of_le hhigh with hlt | rfl
  · rw [spareBits_of_lt hlt, Nat.pow_zero, Nat.div_one, Nat.mul_one]
    omega
  · rw [spareBits_two_pow]
    decide

/-- With enough zeros after it, a number of no more than 53 bits has all of them. -/
theorem mul_two_pow_bounds (hpos : 0 < n) (h : n < 2 ^ 53) :
    2 ^ 52 ≤ n * 2 ^ (52 - n.log2) ∧ n * 2 ^ (52 - n.log2) < 2 ^ 53 := by
  have hlog : n.log2 ≤ 52 := Nat.le_of_lt_succ ((Nat.log2_lt (Nat.ne_of_gt hpos)).2 h)
  have hpow (j : Nat) : 2 ^ (n.log2 + j) * 2 ^ (52 - n.log2) = 2 ^ (52 + j) := by
    rw [← Nat.pow_add]
    congr 1
    omega
  exact ⟨hpow 0 ▸ Nat.mul_le_mul_right _ (Nat.log2_self_le (Nat.ne_of_gt hpos)),
    hpow 1 ▸ Nat.mul_lt_mul_of_pos_right Nat.lt_log2_self (Nat.two_pow_pos _)⟩

theorem roundedNat_of_lt (h : n < 2 ^ 53) : roundedNat n = n := by
  rw [roundedNat, spareBits_of_lt h, roundedQuotient_zero, Nat.pow_zero, Nat.mul_one]

theorem roundedNat_bounds (h : 2 ^ 52 ≤ n) :
    2 ^ n.log2 ≤ roundedNat n ∧ roundedNat n ≤ 2 ^ (n.log2 + 1) := by
  obtain ⟨hlow, hhigh⟩ := roundedQuotient_bounds h
  have hlog : 52 ≤ n.log2 := (Nat.le_log2 (by omega)).2 h
  have hle (j : Nat) : 2 ^ (n.log2 + j) = 2 ^ (52 + j) * 2 ^ spareBits n := by
    rw [← Nat.pow_add, spareBits]
    congr 1
    omega
  exact ⟨hle 0 ▸ Nat.mul_le_mul_right _ hlow, hle 1 ▸ Nat.mul_le_mul_right _ hhigh⟩

theorem roundedNat_le_roundedNat (h : m ≤ n) : roundedNat m ≤ roundedNat n := by
  by_cases hm : m < 2 ^ 53
  · rw [roundedNat_of_lt hm]
    by_cases hn : n < 2 ^ 53
    · rwa [roundedNat_of_lt hn]
    · have hlog : 53 ≤ n.log2 := (Nat.le_log2 (by omega)).2 (Nat.le_of_not_lt hn)
      exact Nat.le_trans (Nat.le_of_lt hm)
        (Nat.le_trans (Nat.pow_le_pow_right Nat.two_pos hlog) (roundedNat_bounds (by omega)).1)
  · have hm' : 2 ^ 52 ≤ m := by omega
    have hn' : 2 ^ 52 ≤ n := Nat.le_trans hm' h
    have hlog : m.log2 ≤ n.log2 :=
      (Nat.le_log2 (by omega)).2 (Nat.le_trans (Nat.log2_self_le (by omega)) h)
    rcases Nat.lt_or_eq_of_le hlog with hlt | heq
    · exact Nat.le_trans (roundedNat_bounds hm').2
        (Nat.le_trans (Nat.pow_le_pow_right Nat.two_pos hlt) (roundedNat_bounds hn').1)
    · have hspare : spareBits m = spareBits n := by rw [spareBits, spareBits, heq]
      rw [roundedNat, roundedNat, hspare]
      exact Nat.mul_le_mul_right _ (roundedQuotient_le_roundedQuotient h _)

/-! ## Integers -/

theorem roundedInt_of_lt {n : Int} (h : n.natAbs < 2 ^ 53) : roundedInt n = n := by
  cases n with
  | ofNat n => exact congrArg Int.ofNat (roundedNat_of_lt h)
  | negSucc n => exact congrArg (fun m : Nat => -(m : Int)) (roundedNat_of_lt h)

theorem roundedInt_le_roundedInt {a b : Int} (h : a ≤ b) : roundedInt a ≤ roundedInt b := by
  cases a with
  | ofNat a =>
    obtain ⟨b, rfl⟩ := Int.eq_ofNat_of_zero_le (Int.le_trans (Int.natCast_nonneg a) h)
    exact Int.ofNat_le.2 (roundedNat_le_roundedNat (Int.ofNat_le.1 h))
  | negSucc a =>
    cases b with
    | ofNat b =>
      exact Int.le_trans (Int.neg_nonpos_of_nonneg (Int.natCast_nonneg _)) (Int.natCast_nonneg _)
    | negSucc b =>
      have hle : b ≤ a := by omega
      exact Int.neg_le_neg (Int.ofNat_le.2 (roundedNat_le_roundedNat (Nat.succ_le_succ hle)))

theorem eq_of_roundedInt_eq_of_lt {a b : Int} (h : a.natAbs < 2 ^ 53)
    (heq : roundedInt a = roundedInt b) : a = b := by
  rw [roundedInt_of_lt h] at heq
  by_cases hb : b.natAbs < 2 ^ 53
  · rw [heq, roundedInt_of_lt hb]
  · -- other numbers are rounded to no number below `2 ^ 53`
    have hend : roundedInt (2 ^ 53) = 2 ^ 53 ∧ roundedInt (-2 ^ 53) = -2 ^ 53 := by decide +kernel
    rcases Int.le_total 0 b with hpos | hneg
    · have hle : roundedInt (2 ^ 53) ≤ roundedInt b := roundedInt_le_roundedInt (by omega)
      omega
    · have hle : roundedInt b ≤ roundedInt (-2 ^ 53) := roundedInt_le_roundedInt (by omega)
      omega

/-- A number below `2 ^ 53` is told from every other number after rounding. -/
theorem eq_of_roundedInt_eq {a b : Int} (h : a.natAbs < 2 ^ 53 ∨ b.natAbs < 2 ^ 53)
    (heq : roundedInt a = roundedInt b) : a = b := by
  rcases h with ha | hb
  · exact eq_of_roundedInt_eq_of_lt ha heq
  · exact (eq_of_roundedInt_eq_of_lt hb heq.symm).symm

example : roundedInt (2 ^ 53 + 1) = roundedInt (2 ^ 53) := by decide +kernel

end SeriesPipeline.Decimal
