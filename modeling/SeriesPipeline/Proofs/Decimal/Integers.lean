import SeriesPipeline.Data.Value
import SeriesPipeline.Proofs.Decimal.Normal
import SeriesPipeline.Proofs.Decimal.Order

/-!
# Doubles of integers

The double of an integer is the integer rounded to 53 bits, and doubles of integers are in the order
of the rounded integers.
-/

namespace SeriesPipeline.Decimal

open Float.Model (UnpackedFloat)
open Float.Model.UnpackedFloat

variable {m n : Nat} {u u' : UnpackedFloat} {v v' : Int}

/-! ## Whole numbers -/

/-- A zero, or a normal number whose value `m * 2 ^ (j - 52)` is the integer of that sign. -/
inductive Whole : UnpackedFloat → Int → Prop
  | zero (s : Sign) : Whole (.zero s) 0
  | finite (s : Sign) {m j v : Nat} (low : 2 ^ 52 ≤ m) (high : m < 2 ^ 53) (small : j ≤ 1023)
      (value : m * 2 ^ j = v * 2 ^ 52) (hm : 0 < m) : Whole (.finite s m (j - 52) hm) (s.apply v)

theorem Whole.neg (h : Whole u v) : Whole u.neg (-v) := by
  cases h with
  | zero s => exact .zero (-s)
  | finite s low high small value hm =>
    have hneg := Whole.finite (-s) low high small value hm
    cases s with
    | negative => rwa [Sign.apply, Int.neg_neg]
    | positive => exact hneg

theorem Whole.unpack_pack (h : Whole u v) : unpack .binary64 (pack .binary64 u) = u := by
  cases h with
  | zero s => cases s <;> rfl
  | finite s low high small value hm =>
    exact unpack_pack_finite s low high (by omega) (by omega) hm

/-- Numbers of 53 bits with zeros after them are compared by how many zeros there are first. -/
theorem value_lt_iff {m m' j j' v v' : Nat} (low : 2 ^ 52 ≤ m) (high : m < 2 ^ 53)
    (value : m * 2 ^ j = v * 2 ^ 52) (low' : 2 ^ 52 ≤ m') (high' : m' < 2 ^ 53)
    (value' : m' * 2 ^ j' = v' * 2 ^ 52) : v < v' ↔ j < j' ∨ j = j' ∧ m < m' := by
  have hjump {m m' j j' : Nat} (high : m < 2 ^ 53) (low' : 2 ^ 52 ≤ m') (hj : j < j') :
      m * 2 ^ j < m' * 2 ^ j' :=
    calc m * 2 ^ j < 2 ^ 53 * 2 ^ j := Nat.mul_lt_mul_of_pos_right high (Nat.two_pow_pos j)
      _ = 2 ^ 52 * 2 ^ (j + 1) := by rw [Nat.pow_succ 2 j]; omega
      _ ≤ m' * 2 ^ j' := Nat.mul_le_mul low' (Nat.pow_le_pow_right Nat.two_pos hj)
  rw [← Nat.mul_lt_mul_right (Nat.two_pow_pos 52), ← value, ← value']
  -- with fewer zeros a number is below every number that has more
  rcases Nat.lt_trichotomy j j' with hlt | rfl | hgt
  · exact iff_of_true (hjump high low' hlt) (.inl hlt)
  · rw [Nat.mul_lt_mul_right (Nat.two_pow_pos j)]
    simp
  · exact iff_of_false (Nat.lt_asymm (hjump high' low hgt)) (by omega)

theorem Whole.exists_place (h : Whole u v) : ∃ p, Place.of? u = some p := by
  cases h with
  | zero s => exact ⟨_, rfl⟩
  | finite s => cases s <;> exact ⟨_, rfl⟩

/-- Whole numbers stand in the order of their values. -/
theorem Whole.lt_iff {p p' : Place} (h : Whole u v) (h' : Whole u' v') (hp : Place.of? u = some p)
    (hp' : Place.of? u' = some p') : p < p' ↔ v < v' := by
  have hpos {m j v : Nat} (hm : 0 < m) (value : m * 2 ^ j = v * 2 ^ 52) : 0 < v :=
    Nat.pos_of_mul_pos_right (value ▸ Nat.mul_pos hm (Nat.two_pow_pos j))
  cases h with
  | zero s =>
    cases hp
    cases h' with
    | zero s' =>
      cases hp'
      simp
    | finite s' low' high' small' value' hm' =>
      have hv' := hpos hm' value'
      cases s' <;> cases hp' <;> simp [Prod.Lex.toLex_lt_toLex, Sign.apply, hv']
  | @finite s m j v low high small value hm =>
    have hv := hpos hm value
    cases h' with
    | zero s' =>
      cases hp'
      cases s <;> cases hp <;> simp [Prod.Lex.toLex_lt_toLex, Sign.apply, hv]
    | @finite s' m' j' v' low' high' small' value' hm' =>
      have hv' := hpos hm' value'
      have hlt := value_lt_iff low high value low' high' value'
      have hgt := value_lt_iff low' high' value' low high value
      cases s <;> cases s' <;> cases hp <;> cases hp' <;>
        simp [Prod.Lex.toLex_lt_toLex, Sign.apply] <;> omega

theorem Whole.unpack_ofModel (h : Whole u v) :
    Whole (Float.ofModel (.pack u)).toModel.unpack v := by
  show Whole (unpack .binary64 (pack .binary64 u)) v
  rwa [h.unpack_pack]

theorem unpack_toModel_neg (x : Float) :
    (-x).toModel.unpack = unpack .binary64 (pack .binary64 x.toModel.unpack.neg) := rfl

theorem unpack_one :
    (Float.ofBits 0x3FF0000000000000).toModel.unpack =
      .finite .positive (2 ^ 52) (-52) (Nat.two_pow_pos 52) := by
  rfl

theorem whole_mul_one {x : Float} (h : Whole x.toModel.unpack v) :
    Whole (x * Float.ofBits 0x3FF0000000000000).toModel.unpack v := by
  have hsign (s : Sign) : s * .positive = s := by cases s <;> rfl
  suffices hmul : Whole (mul .binary64 x.toModel.unpack
      (Float.ofBits 0x3FF0000000000000).toModel.unpack) v from hmul.unpack_ofModel
  rw [unpack_one]
  generalize x.toModel.unpack = u at h ⊢
  cases h with
  | zero s => exact .zero (s * .positive)
  | @finite s m j v low high small value hm =>
    have hone : mul .binary64 (.finite s m (j - 52) hm)
        (.finite .positive (2 ^ 52) (-52) (Nat.two_pow_pos 52)) = .finite s m (j - 52) hm := by
      rw [mul, hsign, roundWithAccuracy_mul s low high (by omega)]
      congr 1
      exact Int.neg_add_cancel_right (j - 52) (52 : Nat)
    rw [hone]
    exact .finite s low high small value hm

theorem whole_ofNat_of_lt (h : n < 2 ^ 53) : Whole (ofNat .binary64 n) n := by
  cases n with
  | zero => exact .zero .positive
  | succ n =>
    have hlog : (n + 1).log2 ≤ 52 := Nat.le_of_lt_succ ((Nat.log2_lt (Nat.succ_ne_zero n)).2 h)
    obtain ⟨hlow, hhigh⟩ := mul_two_pow_bounds (Nat.succ_pos n) h
    have hvalue : (n + 1) * 2 ^ (52 - (n + 1).log2) * 2 ^ (n + 1).log2 = (n + 1) * 2 ^ 52 := by
      rw [Nat.mul_assoc, ← Nat.pow_add, Nat.sub_add_cancel hlog]
    show Whole (UnpackedFloat.round .binary64 .positive (n + 1) 0) (n + 1 : Nat)
    rw [round_of_lt .positive (Nat.succ_pos n) h (Nat.lt_of_lt_of_le (Nat.two_pow_pos 52) hlow)]
    exact .finite .positive hlow hhigh (by omega) hvalue _

theorem ofScientific_zero (h : n ≠ 0) :
    ofScientific .binary64 n 0 =
      roundWithAccuracy .binary64 .positive (n * 2 ^ 53) (-53) .exact := by
  have hlarge : ¬ (0 : Int) < -(2 ^ 11 + n.log2) := by omega
  rw [ofScientific, dif_neg h, if_neg (by decide), if_neg hlarge, if_pos (by decide), mul,
    Nat.shiftLeft_eq, Int.toNat_zero, Nat.pow_zero, Nat.mul_one, Int.add_zero]
  rfl

/-- A number that has more than 53 bits is cut; the zeros that it is given before do not matter. -/
theorem whole_ofScientific (h : 2 ^ 53 ≤ n) (hn : n < 2 ^ 64) :
    Whole (ofScientific .binary64 n 0) (roundedNat n) := by
  have hlog : 53 ≤ n.log2 := (Nat.le_log2 (by omega)).2 h
  have hlog' : n.log2 < 64 := (Nat.log2_lt (by omega)).2 hn
  have hspare : spareBits (n * 2 ^ 53) = spareBits n + 53 := spareBits_mul 53 (by omega)
  obtain ⟨m, j, hm, heq, hlow, hhigh, hj, hrounded⟩ :=
    roundWithAccuracy_exact (n := n * 2 ^ 53) (e := -53) .positive (by omega) (by omega)
  rw [hspare, roundedQuotient_mul] at hrounded
  have hexponent : (-53 : Int) + spareBits (n * 2 ^ 53) + j =
      ((spareBits n + 52 + j : Nat) : Int) - 52 := by
    rw [hspare]
    omega
  have hvalue : m * 2 ^ (spareBits n + 52 + j) = roundedNat n * 2 ^ 52 := by
    calc m * 2 ^ (spareBits n + 52 + j) = m * 2 ^ j * 2 ^ spareBits n * 2 ^ 52 := by
          rw [Nat.mul_assoc, Nat.mul_assoc, ← Nat.pow_add, ← Nat.pow_add]
          congr 2
          omega
      _ = roundedNat n * 2 ^ 52 := by rw [hrounded, roundedNat]
  rw [ofScientific_zero (by omega), heq, hexponent]
  exact .finite .positive hlow hhigh (by rw [spareBits]; omega) hvalue hm

/-- Up to 53 bits, the word of a number is converted; beyond, the number is rounded. -/
theorem whole_ofNat (hn : n < 2 ^ 64) : Whole (Float.ofNat n).toModel.unpack (roundedNat n) := by
  show Whole (Float.ofScientific n false 0).toModel.unpack (roundedNat n)
  by_cases h : n < 2 ^ 53
  · have hword : n.toUInt64.toNat = n := Nat.mod_eq_of_lt hn
    have hwhole : Whole (ofNat .binary64 n.toUInt64.toNat) n := by
      rw [hword]
      exact whole_ofNat_of_lt h
    have hfloat : Whole n.toUInt64.toFloat.toModel.unpack n := hwhole.unpack_ofModel
    rw [Float.ofScientific, dif_pos ⟨h, by decide⟩, roundedNat_of_lt h]
    exact whole_mul_one hfloat
  · rw [Float.ofScientific, dif_neg fun hsmall => h hsmall.1]
    exact (whole_ofScientific (Nat.le_of_not_lt h) hn).unpack_ofModel

theorem whole_ofInt {n : Int} (hn : n.natAbs < 2 ^ 64) :
    Whole (Float.ofInt n).toModel.unpack (roundedInt n) := by
  cases n with
  | ofNat n => exact whole_ofNat hn
  | negSucc n =>
    have hneg := (whole_ofNat (n := n + 1) hn).neg
    show Whole (-Float.ofNat (n + 1)).toModel.unpack (-(roundedNat (n + 1) : Int))
    rwa [unpack_toModel_neg, hneg.unpack_pack]

/-! ## Words -/

theorem whole_floatOfInt (a : Int64) :
    Whole (Value.floatOfInt a).toModel.unpack (roundedInt a.toInt) := by
  have hlow := a.le_toInt
  have hhigh := a.toInt_lt
  exact whole_ofInt (by omega)

theorem floatOfInt_lt_iff (a b : Int64) :
    Value.floatOfInt a < Value.floatOfInt b ↔ roundedInt a.toInt < roundedInt b.toInt := by
  obtain ⟨p, hp⟩ := (whole_floatOfInt a).exists_place
  obtain ⟨q, hq⟩ := (whole_floatOfInt b).exists_place
  rw [← (whole_floatOfInt a).lt_iff (whole_floatOfInt b) hp hq, lt_iff, place?, place?, hp, hq]
  simp

theorem floatOfInt_beq (a b : Int64) :
    (Value.floatOfInt a == Value.floatOfInt b) =
      decide (roundedInt a.toInt = roundedInt b.toInt) := by
  obtain ⟨p, hp⟩ := (whole_floatOfInt a).exists_place
  obtain ⟨q, hq⟩ := (whole_floatOfInt b).exists_place
  have hlt := (whole_floatOfInt a).lt_iff (whole_floatOfInt b) hp hq
  have hgt := (whole_floatOfInt b).lt_iff (whole_floatOfInt a) hq hp
  have heq : q = p ↔ roundedInt a.toInt = roundedInt b.toInt := by
    rw [eq_iff_le_not_lt, ← not_lt, hlt, hgt]
    omega
  rw [Bool.eq_iff_iff, beq_iff, place?, place?, hp, hq, decide_eq_true_iff, ← heq]
  simp

end SeriesPipeline.Decimal
