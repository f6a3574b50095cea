import Mathlib.Tactic.NormNum
import SeriesPipeline.Operator.Reducing
import SeriesPipeline.Proofs.Decimal.Ceiling
import SeriesPipeline.Proofs.Selection
import SeriesPipeline.Proofs.Time.Order

/-!
# Percentiles

A percentile is the number of its rank in the total order of doubles, which tells their bits apart.
It does not depend on the order that the numbers come in, and does not fall when the rank rises.
-/

namespace SeriesPipeline

open Decimal
open Float.Model.UnpackedFloat

variable {p q : Float} {x y : UInt64} {xs ys : List UInt64} {n : Nat}

/-! ## Ranks -/

theorem place?_leastInfinity : place? (-1.0 / 0.0) = some (toLex (-2, toLex (0, 0))) := by
  rfl

theorem ceilWord_nonneg {z : Float} (h : NotNegative z.toModel.unpack) :
    0 ≤ (ceilWord z).toInt := by
  rw [ceilWord]
  split
  · rename_i k hk
    have hword : (Int64.ofIntClamp k).toInt =
        max Int64.minValue.toInt (min k Int64.maxValue.toInt) := Instant.toInt_clamp_eq k
    have hgreatest : 0 ≤ Int64.maxValue.toInt := by decide
    have hk := h.ceil?_nonneg hk
    omega
  · split_ifs with hgreatest hleast
    · decide
    · obtain ⟨a, ha, hinfinity⟩ := beq_iff.1 hleast
      rw [place?_leastInfinity] at hinfinity
      cases hinfinity
      exact absurd ((notNegative_iff ha).1 h) (by decide)
    · decide

theorem percentileRank_lt (p : Float) {n : Nat} (h : 0 < n) : percentileRank p n < n := by
  rw [percentileRank]
  omega

/-- For a `p` that is not negative, the word that is rounded up to is not the least one, so there is
a word before it. -/
theorem percentileRank_eq (hp : 0.0 ≤ p) (hn : 0 < n) : (percentileRank p n : Int) =
    min (max ((ceilWord (p / 100.0 * Float.ofNat n)).toInt - 1) 0) (n - 1) := by
  have hnonneg : 0 ≤ (ceilWord (p / 100.0 * Float.ofNat n)).toInt := by
    have hhundred : signOf (100.0 : Float).toModel.unpack = .positive := by rfl
    have hquotient := (notNegative_of_le hp).div hhundred
    exact ceilWord_nonneg (hquotient.unpack_pack.mul (signOf_ofNat n)).unpack_pack
  have hposition : (ceilWord (p / 100.0 * Float.ofNat n) - 1).toInt =
      (ceilWord (p / 100.0 * Float.ofNat n)).toInt - 1 := by
    have hone : (1 : Int64).toInt = 1 := by rfl
    have hlt := (ceilWord (p / 100.0 * Float.ofNat n)).toInt_lt
    rw [Int64.toInt_sub, hone]
    exact Int.bmod_eq_of_le (by omega) (by omega)
  rw [percentileRank, hposition]
  omega

/-- With a finite `p / 100 * n`, the rank is before the least integer that is not below it. -/
theorem percentileRank_eq_of_value? {v : ℚ} (hp : 0.0 ≤ p) (hn : 0 < n)
    (hv : value? (p / 100.0 * Float.ofNat n) = some v) : (percentileRank p n : Int) =
      min (max (min ⌈v⌉ Int64.maxValue.toInt - 1) 0) (n - 1) := by
  have hword : (ceilWord (p / 100.0 * Float.ofNat n)).toInt =
      max Int64.minValue.toInt (min ⌈v⌉ Int64.maxValue.toInt) := by
    rw [ceilWord, ceil?_eq, hv]
    exact Instant.toInt_clamp_eq _
  have hleast : Int64.minValue.toInt < 0 := by decide
  rw [percentileRank_eq hp hn, hword]
  omega

/-! ## The total order -/

/-- The key puts the bits of doubles in their total order: NaN with the sign bit, then numbers by
size, with the negative zero before the other, and then NaN without the sign bit. -/
structure TotalOrder (key : UInt64 → Int) : Prop where
  injective : Function.Injective key
  lt_of_lt : ∀ x y, Float.ofBits x < Float.ofBits y → key x < key y
  zeros : key (-0.0 : Float).toBits < key (0.0 : Float).toBits
  first : ∀ x y, (Float.ofBits x).isNaN → 2 ^ 63 ≤ x.toNat → ¬ (Float.ofBits y).isNaN →
    key x < key y
  last : ∀ x y, ¬ (Float.ofBits x).isNaN → (Float.ofBits y).isNaN → y.toNat < 2 ^ 63 →
    key x < key y

theorem totalOrderKey_eq_ite (x : UInt64) :
    totalOrderKey x = if x.toNat < 2 ^ 63 then (x.toNat : Int) else 2 ^ 63 - 1 - x.toNat := by
  have hmax : Int64.maxValue.toInt = 2 ^ 63 - 1 := by rfl
  rw [totalOrderKey, hmax]
  split_ifs <;> omega

/-- Bits that stand in one place of the total order are the same. -/
theorem totalOrderKey_injective : Function.Injective totalOrderKey := by
  intro x y h
  have hx := x.toNat_lt
  have hy := y.toNat_lt
  rw [totalOrderKey_eq_ite, totalOrderKey_eq_ite] at h
  refine UInt64.toNat_inj.1 ?_
  split_ifs at h <;> omega

theorem totalOrderKey_eq (x : UInt64) : totalOrderKey x =
    fieldsKey (.ofBitVec (unpackSign (bitsOf x))) (unpackExponent (bitsOf x)).toNat
      (unpackMantissa (bitsOf x)).toNat :=
  (totalOrderKey_eq_ite x).trans (fieldsKey_eq (bitsOf x)).symm

/-- The total order agrees with the order of numbers. -/
theorem totalOrderKey_lt_of_lt (h : Float.ofBits x < Float.ofBits y) :
    totalOrderKey x < totalOrderKey y := by
  obtain ⟨a, b, ha, hb, hab⟩ := lt_iff.1 h
  rw [place?, unpack_ofBits] at ha hb
  rw [totalOrderKey_eq, totalOrderKey_eq]
  exact fieldsKey_lt_fieldsKey ha hb (BitVec.isLt _) (BitVec.isLt _) (BitVec.isLt _)
    (BitVec.isLt _) hab

theorem totalOrder_totalOrderKey : TotalOrder totalOrderKey where
  injective := totalOrderKey_injective
  lt_of_lt _ _ := totalOrderKey_lt_of_lt
  zeros := by decide
  first x y hx hsign hy := by
    have hlt := y.toNat_lt
    rw [isNaN_ofBits_iff] at hx hy
    rw [totalOrderKey_eq_ite, totalOrderKey_eq_ite]
    split_ifs <;> omega
  last x y hx hy hsign := by
    rw [isNaN_ofBits_iff] at hx hy
    rw [totalOrderKey_eq_ite, totalOrderKey_eq_ite]
    split_ifs <;> omega

/-! ## Selection -/

theorem hasRank_of_percentileOfBits (h : percentileOfBits xs p = some x) :
    HasRank totalOrderKey xs (percentileRank p xs.length) x :=
  .of_getElem?_mergeSort h

theorem percentileOfBits_eq_none_iff : percentileOfBits xs p = none ↔ xs = [] := by
  rw [percentileOfBits, List.getElem?_eq_none_iff, List.length_mergeSort]
  constructor
  · intro hlength
    by_contra hne
    exact absurd (percentileRank_lt p (List.length_pos_of_ne_nil hne)) (Nat.not_lt.2 hlength)
  · rintro rfl
    exact Nat.zero_le _

theorem percentileOfBits_perm (h : ys.Perm xs) : percentileOfBits ys p = percentileOfBits xs p := by
  cases hx : percentileOfBits xs p with
  | none =>
    rw [percentileOfBits_eq_none_iff] at hx ⊢
    exact List.perm_nil.1 (hx ▸ h)
  | some x =>
    cases hy : percentileOfBits ys p with
    | none =>
      rw [percentileOfBits_eq_none_iff.1 hy] at h
      rw [percentileOfBits_eq_none_iff.2 (List.nil_perm.1 h)] at hx
      cases hx
    | some y =>
      have hrank := (hasRank_of_percentileOfBits hy).of_perm h
      rw [h.length_eq] at hrank
      rw [totalOrderKey_injective (hrank.key_eq (hasRank_of_percentileOfBits hx))]

/-- The percentile of numbers in their bits is that number's bits, so the bits are not changed on the
way. -/
theorem map_toBits_percentile (xs : List Float) (p : Float) :
    (percentile xs p).map Float.toBits = percentileOfBits (xs.map Float.toBits) p := by
  rw [percentile]
  cases h : percentileOfBits (xs.map Float.toBits) p with
  | none => rfl
  | some x =>
    obtain ⟨y, -, rfl⟩ := List.mem_map.1 (hasRank_of_percentileOfBits h).mem
    rw [Option.map_some, Option.map_some, Float.ofBits_toBits]

/-- For `p` within the bounds that a plan keeps, the percentile of the rank that `p` stands for. -/
theorem percentile_selects (hp : 0.0 ≤ p ∧ p ≤ 100.0) (xs : List UInt64) :
    TotalOrder totalOrderKey ∧
    (percentileOfBits xs p = none ↔ xs = []) ∧
    (∀ x, percentileOfBits xs p = some x →
      HasRank totalOrderKey xs (percentileRank p xs.length) x) ∧
    (xs ≠ [] → (percentileRank p xs.length : Int) =
      min (max ((ceilWord (p / 100.0 * Float.ofNat xs.length)).toInt - 1) 0) (xs.length - 1)) ∧
    (xs ≠ [] → ∀ v, value? (p / 100.0 * Float.ofNat xs.length) = some v →
      (percentileRank p xs.length : Int) =
        min (max (min ⌈v⌉ Int64.maxValue.toInt - 1) 0) (xs.length - 1)) ∧
    (∀ ys : List UInt64, ys.Perm xs → percentileOfBits ys p = percentileOfBits xs p) ∧
    (∀ q, 0.0 ≤ q ∧ q ≤ 100.0 → percentileRank p xs.length ≤ percentileRank q xs.length →
      ∀ x y, percentileOfBits xs p = some x → percentileOfBits xs q = some y →
        totalOrderKey x ≤ totalOrderKey y) ∧
    ∀ fs : List Float, fs.map Float.toBits = xs →
      (percentile fs p).map Float.toBits = percentileOfBits xs p := by
  refine ⟨totalOrder_totalOrderKey, percentileOfBits_eq_none_iff,
    fun x hx => hasRank_of_percentileOfBits hx, fun hne => ?_, fun hne v hv => ?_,
    fun ys hperm => percentileOfBits_perm hperm, fun q _ hle x y hx hy => ?_, fun fs hfs => ?_⟩
  · exact percentileRank_eq hp.1 (List.length_pos_of_ne_nil hne)
  · exact percentileRank_eq_of_value? hp.1 (List.length_pos_of_ne_nil hne) hv
  · exact (hasRank_of_percentileOfBits hx).key_le (hasRank_of_percentileOfBits hy) hle
  · rw [← hfs, map_toBits_percentile]

/-- The median of three doubles one of which is NaN with the sign bit. -/
theorem percentile_selects_median :
    (0.0 ≤ (50.0 : Float) ∧ (50.0 : Float) ≤ 100.0) ∧
      value? (50.0 / 100.0 * Float.ofNat 3) = some (3 / 2) ∧
      (Float.ofBits 0xfff8000000000000).isNaN ∧
      percentileOfBits [(2.0 : Float).toBits, 0xfff8000000000000, (-0.0 : Float).toBits] 50.0 =
        some (-0.0 : Float).toBits := by
  have hp : 0.0 ≤ (50.0 : Float) ∧ (50.0 : Float) ≤ 100.0 := by decide
  have hvalue : value? (50.0 / 100.0 * Float.ofNat 3) = some (3 / 2) := by
    have hunpack : (50.0 / 100.0 * Float.ofNat 3 : Float).toModel.unpack =
        .finite .positive 6755399441055744 (-52) (by decide) := by rfl
    rw [value?, hunpack, valueOf?]
    norm_num
  obtain ⟨-, hnone, hrank, -, hposition, -⟩ := percentile_selects hp
    [(2.0 : Float).toBits, 0xfff8000000000000, (-0.0 : Float).toBits]
  refine ⟨hp, hvalue, by decide, ?_⟩
  cases hx : percentileOfBits _ 50.0 with
  | none => cases hnone.1 hx
  | some x =>
    have hsecond : percentileRank 50.0 3 = 1 := by
      have hint : (percentileRank 50.0 3 : Int) =
          min (max (min ⌈(3 / 2 : ℚ)⌉ Int64.maxValue.toInt - 1) 0) (3 - 1) :=
        hposition (List.cons_ne_nil _ _) _ hvalue
      have hceil : ⌈(3 / 2 : ℚ)⌉ = 2 := by norm_num
      have hgreatest : Int64.maxValue.toInt = 2 ^ 63 - 1 := by rfl
      rw [hceil, hgreatest] at hint
      omega
    have hselected := hsecond ▸ hrank x hx
    have hzero : HasRank totalOrderKey
        [(2.0 : Float).toBits, 0xfff8000000000000, (-0.0 : Float).toBits] 1 (-0.0 : Float).toBits :=
      ⟨by decide, by decide, by decide⟩
    rw [totalOrderKey_injective (hselected.key_eq hzero)]

end SeriesPipeline
