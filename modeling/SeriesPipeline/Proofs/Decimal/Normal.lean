import SeriesPipeline.Proofs.Decimal.Rounding

/-!
# Normal doubles

A normal double has 53 bits before its exponent. Numbers of more bits are rounded to these, and
their 64 bits say which number it is.
-/

namespace SeriesPipeline.Decimal

open Float.Model (UnpackedFloat Format totalExponent)
open Float.Model.UnpackedFloat

variable {m n k : Nat} {e : Int} {s : Sign}

/-! ## Shifting bits out

The bits that were shifted out are told by two: the round bit, which was shifted out last, and the
sticky bit, which is set if any bit before it was. -/

theorem sticky_succ {p r b : Nat} (hlt : r < p) :
    (decide (p ≤ 2 * r) || decide (2 * r % p ≠ 0)) = decide (2 * (r + p * b) % (p * 2) ≠ 0) := by
  have hright : 2 * (r + p * b) % (p * 2) = 2 * r := by
    rw [Nat.mul_comm p 2, Nat.mul_mod_mul_left, Nat.add_mul_mod_self_left, Nat.mod_eq_of_lt hlt]
  rw [hright, ← Bool.decide_or]
  congr 1
  refine propext ⟨fun h => ?_, fun h => ?_⟩
  · rintro hzero
    rw [hzero, Nat.zero_mod] at h
    omega
  · by_cases hhalf : p ≤ 2 * r
    · exact .inl hhalf
    · rw [Nat.mod_eq_of_lt (Nat.lt_of_not_le hhalf)]
      exact .inr h

theorem round_succ {p r b : Nat} (hlt : r < p) (hb : b = 0 ∨ b = 1) :
    (b != 0) = decide (p * 2 ≤ 2 * (r + p * b)) := by
  rcases hb with rfl | rfl
  · exact (decide_eq_false (by omega)).symm
  · exact (decide_eq_true (by omega)).symm

/-- The bits that are shifted out leave behind how the rest of them compares to one half. -/
theorem shiftRight_exact (n k : Nat) :
    ExtendedMantissa.ofMantissaAndAccuracy n .exact >>> k =
      ⟨n / 2 ^ k, decide (2 ^ k ≤ 2 * (n % 2 ^ k)), decide (2 * (n % 2 ^ k) % 2 ^ k ≠ 0)⟩ := by
  show Nat.repeat ExtendedMantissa.shiftRightOne k ⟨n, false, false⟩ = _
  induction k with
  | zero => simp [Nat.repeat, Nat.mod_one]
  | succ k ih =>
    -- the next bit to be shifted out is the lowest one of the quotient
    have hlt : n % 2 ^ k < 2 ^ k := Nat.mod_lt n (Nat.two_pow_pos k)
    have hmod : n % (2 ^ k * 2) = n % 2 ^ k + 2 ^ k * (n / 2 ^ k % 2) := Nat.mod_mul
    rw [Nat.repeat, ih, ExtendedMantissa.shiftRightOne, Nat.pow_succ, hmod,
      ← Nat.div_div_eq_div_mul, ← round_succ hlt (Nat.mod_two_eq_zero_or_one _),
      ← sticky_succ (b := n / 2 ^ k % 2) hlt]

theorem roundedMantissa_shiftRight (n k : Nat) :
    (ExtendedMantissa.ofMantissaAndAccuracy n .exact >>> k).roundedMantissa =
      roundedQuotient n k := by
  have hlt : n % 2 ^ k < 2 ^ k := Nat.mod_lt n (Nat.two_pow_pos k)
  rw [shiftRight_exact, roundedQuotient, ExtendedMantissa.roundedMantissa]
  generalize n % 2 ^ k = r at hlt ⊢
  generalize n / 2 ^ k = q
  generalize 2 ^ k = p at hlt ⊢
  -- less than a half, a half, and more
  rcases Nat.lt_trichotomy (2 * r) p with hlow | rfl | hhigh
  · have hround : ¬ p ≤ 2 * r := Nat.not_le_of_lt hlow
    by_cases hsticky : 2 * r % p = 0
    all_goals simp [hround, hsticky, hlow, ExtendedMantissa.accuracy, Accuracy.roundToNearestEven]
  · rcases Nat.mod_two_eq_zero_or_one q with hparity | hparity
    all_goals simp [hparity, ExtendedMantissa.accuracy, Accuracy.roundToNearestEven]
  · have hmod : 2 * r % p ≠ 0 := by
      rw [Nat.mod_eq_sub_mod (Nat.le_of_lt hhigh), Nat.mod_eq_of_lt (by omega)]
      omega
    have hdown : ¬ (2 * r < p ∨ 2 * r = p ∧ q % 2 = 0) := by omega
    simp [Nat.le_of_lt hhigh, hmod, hdown, ExtendedMantissa.accuracy, Accuracy.roundToNearestEven]

/-! ## Rounding -/

theorem targetExponent_totalExponent (n : Nat) (he : -1074 ≤ n.log2 - 52 + e) :
    Format.binary64.targetExponent (totalExponent n e) = n.log2 - 52 + e := by
  show max ((n.log2 : Int) + 1 + e - 53) (-1074) = _
  omega

theorem shiftToTargetExponent_exact (h : 2 ^ 52 ≤ n) (he : -1074 ≤ e + spareBits n) :
    shiftToTargetExponent .binary64 n e .exact =
      (ExtendedMantissa.ofMantissaAndAccuracy n .exact >>> spareBits n, e + spareBits n) := by
  have hlog : 52 ≤ n.log2 := (Nat.le_log2 (by omega)).2 h
  have hspare : (n.log2 : Int) - 52 + e = e + spareBits n := by
    rw [spareBits]
    omega
  have hshift : (e + spareBits n - e).toNat = spareBits n := by omega
  rw [shiftToTargetExponent, targetExponent_totalExponent n (by omega), hspare, shiftToExponent,
    hshift]

/-- What is left is the quotient, rounded; the carry of rounding may move it by one more bit. -/
theorem roundWithAccuracy_exact (s : Sign) (h : 2 ^ 52 ≤ n) (he : -1074 ≤ e + spareBits n) :
    ∃ (m j : Nat) (hm : 0 < m),
      roundWithAccuracy .binary64 s n e .exact = .finite s m (e + spareBits n + j) hm ∧
      2 ^ 52 ≤ m ∧ m < 2 ^ 53 ∧ j ≤ 1 ∧ m * 2 ^ j = roundedQuotient n (spareBits n) := by
  obtain ⟨hlow, hhigh⟩ := roundedQuotient_bounds h
  obtain ⟨hmul, hlow', hhigh', hj⟩ := div_spareBits_mul hlow hhigh
  have hm := Nat.lt_of_lt_of_le (Nat.two_pow_pos 52) hlow'
  refine ⟨_, _, hm, ?_, hlow', hhigh', hj, hmul⟩
  rw [roundWithAccuracy, shiftToTargetExponent_exact h he]
  dsimp only
  rw [roundedMantissa_shiftRight, shiftToTargetExponent_exact hlow (by omega)]
  dsimp only
  rw [shiftRight_exact]
  exact dif_neg (Nat.ne_of_gt hm)

/-- Only zeros come after the 53 bits of `m`. -/
theorem roundWithAccuracy_mul (s : Sign) (hlow : 2 ^ 52 ≤ m) (hhigh : m < 2 ^ 53)
    (he : -1074 ≤ e + k) :
    roundWithAccuracy .binary64 s (m * 2 ^ k) e .exact =
      .finite s m (e + k) (Nat.lt_of_lt_of_le (Nat.two_pow_pos 52) hlow) := by
  have hspare : spareBits (m * 2 ^ k) = k := by
    rw [spareBits_mul k hlow, spareBits_of_lt hhigh, Nat.zero_add]
  have hround : roundedQuotient (m * 2 ^ k) k = m := by
    have hzeros := roundedQuotient_mul m k 0
    rwa [Nat.zero_add, roundedQuotient_zero] at hzeros
  have hle : 2 ^ 52 ≤ m * 2 ^ k :=
    Nat.le_trans hlow (Nat.le_mul_of_pos_right m (Nat.two_pow_pos k))
  obtain ⟨m', j, hm, heq, hlow', hhigh', hj, hmul⟩ :=
    roundWithAccuracy_exact (e := e) s hle (by rwa [hspare])
  rw [hspare] at heq hmul
  rw [hround] at hmul
  obtain rfl | rfl : j = 0 ∨ j = 1 := by omega
  · rw [Nat.pow_zero, Nat.mul_one] at hmul
    subst hmul
    rw [heq]
    congr 1
    exact Int.add_zero _
  · omega

/-- A number of no more than 53 bits is moved to the left until it has all of them. -/
theorem round_of_lt (s : Sign) (hpos : 0 < n) (h : n < 2 ^ 53)
    (hm : 0 < n * 2 ^ (52 - n.log2)) :
    UnpackedFloat.round .binary64 s n 0 =
      .finite s (n * 2 ^ (52 - n.log2)) (n.log2 - 52) hm := by
  have hlog : n.log2 ≤ 52 := Nat.le_of_lt_succ ((Nat.log2_lt (Nat.ne_of_gt hpos)).2 h)
  obtain ⟨hlow, hhigh⟩ := mul_two_pow_bounds hpos h
  have hexact : roundWithAccuracy .binary64 s (n * 2 ^ (52 - n.log2)) (n.log2 - 52) .exact =
      .finite s (n * 2 ^ (52 - n.log2)) (n.log2 - 52) hm := by
    simpa using roundWithAccuracy_mul (k := 0) (e := n.log2 - 52) s hlow hhigh (by omega)
  have hshift : (0 - ((n.log2 : Int) - 52 + 0)).toNat = 52 - n.log2 := by omega
  have hexponent : (0 : Int) - ((52 - n.log2 : Nat) : Int) = n.log2 - 52 := by omega
  rw [UnpackedFloat.round, targetExponent_totalExponent n (by omega), decreaseExponent, hshift]
  dsimp only
  rw [Nat.shiftLeft_eq, hexponent, hexact]

/-! ## Bits -/

theorem unpackSign_packComponents {spec : Format} (s : Sign) (e : BitVec spec.exponentBits)
    (m : BitVec spec.mantissaBitsWithoutImplicit) :
    unpackSign (packComponents spec s e m) = s.toBitVec := by
  ext i hi
  obtain rfl : i = 0 := by omega
  simp [unpackSign, packComponents, BitVec.getLsbD_append, BitVec.getElem_append]

theorem ofBitVec_toBitVec (s : Sign) : Sign.ofBitVec s.toBitVec = s := by
  cases s <;> rfl

theorem toNat_one_append {w : Nat} (b : BitVec w) : (1#1 ++ b).toNat = 2 ^ w + b.toNat := by
  rw [BitVec.toNat_append, ← Nat.shiftLeft_add_eq_or_of_lt b.isLt, BitVec.toNat_ofNat,
    Nat.shiftLeft_eq, Nat.mod_eq_of_lt (by decide), Nat.one_mul]

/-- The bits of a number whose exponent is neither the greatest nor the least. -/
theorem unpack_packComponents {spec : Format} (s : Sign) (e : BitVec spec.exponentBits)
    (b : BitVec spec.mantissaBitsWithoutImplicit) (he : e ≠ -1#_) (he' : e ≠ 0#_)
    (hm : 0 < 2 ^ spec.mantissaBitsWithoutImplicit + b.toNat) :
    unpack spec (packComponents spec s e b) =
      .finite s (2 ^ spec.mantissaBitsWithoutImplicit + b.toNat)
        (e.toNat - (spec.exponentBias + spec.mantissaBitsWithoutImplicit)) hm := by
  rw [unpack]
  simp only [unpackExponent_packComponents, if_neg he, if_neg he', unpackSign_packComponents,
    ofBitVec_toBitVec, unpackMantissa_packComponents, toNat_one_append]

theorem pack_finite (s : Sign) {b : Nat} (hlow : 2 ^ 52 ≤ m) (hhigh : m < 2 ^ 53)
    (he : e + 1023 + 52 = b) (hb : b < 2047) (hm : 0 < m) :
    pack .binary64 (.finite s m e hm) =
      packComponents .binary64 s (BitVec.ofNat 11 b) (BitVec.ofNat 52 m) := by
  have hlog : m.log2 + 1 = Format.binary64.mantissaBits := by
    rw [(Nat.log2_eq_iff (Nat.ne_of_gt hm)).2 ⟨hlow, hhigh⟩]
    rfl
  have hbias : (e + Format.binary64.exponentBias + (52 : Nat)).toNat = b := congrArg Int.toNat he
  rw [pack]
  dsimp only
  rw [hbias, if_pos hlog]
  exact if_neg (Nat.not_le_of_lt (Nat.succ_lt_succ hb))

theorem unpack_pack_finite (s : Sign) (hlow : 2 ^ 52 ≤ m) (hhigh : m < 2 ^ 53) (he : -1074 ≤ e)
    (he' : e ≤ 971) (hm : 0 < m) :
    unpack .binary64 (pack .binary64 (.finite s m e hm)) = .finite s m e hm := by
  obtain ⟨b, hb⟩ : ∃ b : Nat, e + 1023 + 52 = b := ⟨(e + 1075).toNat, by omega⟩
  have hmod : b % 2 ^ 11 = b := Nat.mod_eq_of_lt (by omega)
  have hall : BitVec.ofNat 11 b ≠ -1#11 := by
    rw [Ne, ← BitVec.toNat_inj, BitVec.toNat_ofNat, hmod]
    show b ≠ 2047
    omega
  have hnone : BitVec.ofNat 11 b ≠ 0#11 := by
    rw [Ne, ← BitVec.toNat_inj, BitVec.toNat_ofNat, hmod]
    show b ≠ 0
    omega
  have hmantissa : 2 ^ 52 + (BitVec.ofNat 52 m).toNat = m := by
    rw [BitVec.toNat_ofNat]
    omega
  rw [pack_finite s hlow hhigh hb (by omega)]
  refine (unpack_packComponents s _ _ hall hnone (by rwa [hmantissa])).trans ?_
  congr 1
  rw [BitVec.toNat_ofNat, hmod]
  show (b : Int) - (1023 + 52) = e
  omega

end SeriesPipeline.Decimal
