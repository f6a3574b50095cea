import Mathlib.Data.Rat.Floor
import Mathlib.Tactic.Positivity
import SeriesPipeline.Decimal.Binary
import SeriesPipeline.Proofs.Decimal.Sign

/-!
# Values of doubles

A finite double has a rational value. Rounding it up gives the least integer that is not below that
value.
-/

namespace SeriesPipeline.Decimal

open Float.Model (UnpackedFloat)
open Float.Model.UnpackedFloat

def valueOf? : UnpackedFloat → Option ℚ
  | .zero _ => some 0
  | .finite .positive m e _ => some (m * 2 ^ e)
  | .finite .negative m e _ => some (-m * 2 ^ e)
  | _ => none

/-- The value of a finite double. -/
def value? (x : Float) : Option ℚ := valueOf? x.toModel.unpack

def Binary.value? : Binary → Option ℚ
  | .finite negative m q => some ((if negative then -(m : Int) else m : Int) * 2 ^ q)
  | _ => none

variable {u : UnpackedFloat} {x : Float} {v : ℚ}

theorem ofBitVec_unpackSign (word : UInt64) :
    Sign.ofBitVec (unpackSign (bitsOf word)) =
      if signBit ≤ word.toNat then .negative else .positive := by
  have hlt := word.toNat_lt
  have hsign : (unpackSign (bitsOf word)).toNat = word.toNat / 2 ^ 63 % 2 := toNat_unpackSign _
  have hbit : signBit = 2 ^ 63 := by rfl
  rw [Sign.ofBitVec, hbit]
  by_cases hpositive : unpackSign (bitsOf word) = 0#1
  · rw [hpositive, BitVec.toNat_ofNat] at hsign
    rw [if_pos hpositive, if_neg (by omega)]
  · have hne : (unpackSign (bitsOf word)).toNat ≠ 0 := fun hzero =>
      hpositive (BitVec.toNat_inj.1 hzero)
    rw [if_neg hpositive, if_pos (by omega)]

theorem valueOf?_decode (negative : Bool) (e f : Nat) :
    valueOf? (decode (if negative then .negative else .positive) e f) = Binary.value?
      (if e = 2047 then if f = 0 then .infinite negative else .nan
        else if e = 0 then .finite negative f (-1074)
        else .finite negative (leadingBit + f) ((e : Int) - 1075)) := by
  have hleading : leadingBit = 2 ^ 52 := by rfl
  rw [decode, hleading]
  cases negative <;> split_ifs <;> simp_all [valueOf?, Binary.value?]

/-- Both ways to take a double apart agree on its value. -/
theorem value?_ofFloat (x : Float) : (Binary.ofFloat x).value? = value? x := by
  have hunpack := unpack_ofBits x.toBits
  have hexponent : (unpackExponent (bitsOf x.toBits)).toNat =
      x.toBits.toNat / leadingBit % exponentCount := toNat_unpackExponent _
  have hfraction : (unpackMantissa (bitsOf x.toBits)).toNat = x.toBits.toNat % leadingBit :=
    toNat_unpackMantissa _
  have hvalue := valueOf?_decode (decide (signBit ≤ x.toBits.toNat))
    (x.toBits.toNat / leadingBit % exponentCount) (x.toBits.toNat % leadingBit)
  simp only [decide_eq_true_eq] at hvalue
  rw [Float.ofBits_toBits, ofBitVec_unpackSign, hexponent, hfraction] at hunpack
  rw [value?, hunpack, hvalue]
  rfl

/-! ## Rounding up -/

theorem ceil_mul_zpow (n q : Int) : ⌈(n : ℚ) * 2 ^ q⌉ =
    if 0 ≤ q then n * Nat.pow 2 q.toNat else -(-n / Nat.pow 2 (-q).toNat) := by
  split_ifs with hq
  · obtain ⟨k, rfl⟩ := Int.eq_ofNat_of_zero_le hq
    have hcast : (n : ℚ) * 2 ^ (k : Int) = ((n * Nat.pow 2 k : Int) : ℚ) := by
      rw [zpow_natCast, Int.cast_mul]
      norm_cast
    rw [hcast, Int.ceil_intCast]
    rfl
  · obtain ⟨k, hk⟩ : ∃ k : Nat, q = -(k : Int) := ⟨(-q).toNat, by omega⟩
    subst hk
    have hdiv : (n : ℚ) * 2 ^ (-(k : Int)) = -(((-n : Int) : ℚ) / ((Nat.pow 2 k : Int) : ℚ)) := by
      rw [zpow_neg, zpow_natCast, ← div_eq_mul_inv, Int.cast_neg, neg_div, neg_neg]
      norm_cast
    rw [hdiv, Int.ceil_neg, Int.floor_div_cast_of_nonneg (Int.natCast_nonneg _),
      Int.floor_intCast, Int.neg_neg]
    rfl

theorem ceil?_eq (x : Float) : ceil? x = (value? x).map fun v => ⌈v⌉ := by
  rw [← value?_ofFloat, ceil?]
  cases Binary.ofFloat x with
  | nan => rfl
  | infinite negative => rfl
  | finite negative m q => exact congrArg some (ceil_mul_zpow _ q).symm

theorem NotNegative.value_nonneg (h : NotNegative u) (hv : valueOf? u = some v) : 0 ≤ v := by
  rcases h with h | rfl
  · cases u with
    | notANumber => cases hv
    | infinity s => cases hv
    | zero s =>
      cases hv
      rfl
    | finite s m e hm =>
      obtain rfl : s = .positive := h
      cases hv
      positivity
  · cases hv
    rfl

theorem NotNegative.ceil?_nonneg {k : Int} (h : NotNegative x.toModel.unpack)
    (hk : ceil? x = some k) : 0 ≤ k := by
  rw [ceil?_eq] at hk
  obtain ⟨v, hv, rfl⟩ := Option.map_eq_some_iff.1 hk
  exact Int.ceil_nonneg (h.value_nonneg hv)

end SeriesPipeline.Decimal
