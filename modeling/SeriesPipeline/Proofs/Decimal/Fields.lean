import SeriesPipeline.Proofs.Decimal.Normal
import SeriesPipeline.Proofs.Decimal.Order

/-!
# Fields of doubles

The bits of a double are its sign, its exponent and its fraction. Read as integers, with those of
negative doubles counted downwards, they stand in the order of the doubles. The bits of a NaN are
further out than those of any number.
-/

namespace SeriesPipeline.Decimal

open Float.Model (UnpackedFloat Format)
open Float.Model.UnpackedFloat

variable {s s' : Sign} {e e' f f' : Nat} {a a' : Place}

/-- The double with sign `s`, exponent `e` and fraction `f`. -/
def decode (s : Sign) (e f : Nat) : UnpackedFloat :=
  if e = 2047 then if f = 0 then .infinity s else .notANumber
  else if e = 0 then
    if h : f = 0 then .zero s else .finite s f (-1074) (Nat.pos_of_ne_zero h)
  else .finite s (2 ^ 52 + f) (e - 1075) (Nat.add_pos_left (Nat.two_pow_pos 52) f)

/-- The exponent and the fraction as one integer, counted downwards from -1 if the sign is
negative. -/
def fieldsKey : Sign → Nat → Nat → Int
  | .positive, e, f => e * 2 ^ 52 + f
  | .negative, e, f => -1 - (e * 2 ^ 52 + f)

def bitsOf (word : UInt64) : BitVec Format.binary64.numBits := word.toBitVec

theorem toNat_unpackSign (b : BitVec Format.binary64.numBits) :
    (unpackSign b).toNat = b.toNat / 2 ^ 63 % 2 := by
  show (b.toNat >>> 63) % 2 = _
  rw [Nat.shiftRight_eq_div_pow]

theorem toNat_unpackExponent (b : BitVec Format.binary64.numBits) :
    (unpackExponent b).toNat = b.toNat / 2 ^ 52 % 2 ^ 11 := by
  show (b.toNat >>> 52) % 2 ^ 11 = _
  rw [Nat.shiftRight_eq_div_pow]

theorem toNat_unpackMantissa (b : BitVec Format.binary64.numBits) :
    (unpackMantissa b).toNat = b.toNat % 2 ^ 52 := by
  show (b.toNat >>> 0) % 2 ^ 52 = _
  rw [Nat.shiftRight_zero]

/-- The key of the fields in terms of the bits. -/
theorem fieldsKey_eq (b : BitVec Format.binary64.numBits) :
    fieldsKey (.ofBitVec (unpackSign b)) (unpackExponent b).toNat (unpackMantissa b).toNat =
      if b.toNat < 2 ^ 63 then (b.toNat : Int) else 2 ^ 63 - 1 - b.toNat := by
  have hlt : b.toNat < 2 ^ 64 := b.isLt
  have hsign := toNat_unpackSign b
  rw [toNat_unpackExponent, toNat_unpackMantissa]
  by_cases hpositive : unpackSign b = 0#1
  · rw [hpositive] at hsign
    have hkey : fieldsKey (.ofBitVec 0#1) (b.toNat / 2 ^ 52 % 2 ^ 11) (b.toNat % 2 ^ 52) =
        (b.toNat / 2 ^ 52 % 2 ^ 11 : Nat) * 2 ^ 52 + (b.toNat % 2 ^ 52 : Nat) := rfl
    rw [hpositive, hkey]
    simp only [BitVec.toNat_ofNat] at hsign
    omega
  · have hne : (unpackSign b).toNat ≠ 0 := fun hzero => hpositive (BitVec.toNat_inj.1 hzero)
    have hkey : fieldsKey (.ofBitVec (unpackSign b)) (b.toNat / 2 ^ 52 % 2 ^ 11) (b.toNat % 2 ^ 52) =
        -1 - ((b.toNat / 2 ^ 52 % 2 ^ 11 : Nat) * 2 ^ 52 + (b.toNat % 2 ^ 52 : Nat)) := by
      rw [Sign.ofBitVec, if_neg hpositive]
      rfl
    rw [hkey]
    omega

theorem unpack_eq_decode (b : BitVec Format.binary64.numBits) :
    unpack .binary64 b =
      decode (.ofBitVec (unpackSign b)) (unpackExponent b).toNat (unpackMantissa b).toNat := by
  have hgreatest : unpackExponent b = -1#_ ↔ (unpackExponent b).toNat = 2047 :=
    BitVec.toNat_inj.symm
  have hleast : unpackExponent b = 0#_ ↔ (unpackExponent b).toNat = 0 := BitVec.toNat_inj.symm
  have hwhole : unpackMantissa b = 0#_ ↔ (unpackMantissa b).toNat = 0 := BitVec.toNat_inj.symm
  rw [unpack, decode]
  simp only [hgreatest, hleast, hwhole, toNat_one_append]
  split_ifs with _ _ hexponent
  · rfl
  · rfl
  · rfl
  · congr 1
    rw [hexponent]
    rfl
  · rfl

theorem place_decode_positive (h : Place.of? (decode .positive e f) = some a) :
    toLex (0, toLex (0, 0)) ≤ a := by
  rw [decode] at h
  split_ifs at h <;> cases h <;> simp [Prod.Lex.toLex_le_toLex]

theorem place_decode_negative (h : Place.of? (decode .negative e f) = some a) :
    a ≤ toLex (0, toLex (0, 0)) := by
  rw [decode] at h
  split_ifs at h <;> cases h <;> simp [Prod.Lex.toLex_le_toLex]

theorem fieldsKey_lt_fieldsKey (h : Place.of? (decode s e f) = some a)
    (h' : Place.of? (decode s' e' f') = some a') (hf : f < 2 ^ 52) (hf' : f' < 2 ^ 52)
    (he : e < 2 ^ 11) (he' : e' < 2 ^ 11) (hlt : a < a') : fieldsKey s e f < fieldsKey s' e' f' := by
  cases s with
  | positive =>
    cases s' with
    | positive =>
      rw [decode] at h h'
      -- a greater exponent decides, and the fraction if the exponents are the same
      split_ifs at h h' <;> cases h <;> cases h' <;>
        simp only [Prod.Lex.toLex_lt_toLex, fieldsKey] at hlt ⊢ <;> omega
    | negative =>
      have hle := (place_decode_negative h').trans (place_decode_positive h)
      exact absurd hlt (not_lt_of_ge hle)
  | negative =>
    cases s' with
    | positive =>
      simp only [fieldsKey]
      omega
    | negative =>
      rw [decode] at h h'
      split_ifs at h h' <;> cases h <;> cases h' <;>
        simp only [Prod.Lex.toLex_lt_toLex, fieldsKey] at hlt ⊢ <;> omega

/-- A word of bits is the double that its fields decode to, although all NaN are one double. -/
theorem unpack_ofBits (word : UInt64) :
    (Float.ofBits word).toModel.unpack =
      decode (.ofBitVec (unpackSign (bitsOf word))) (unpackExponent (bitsOf word)).toNat
        (unpackMantissa (bitsOf word)).toNat := by
  rw [← unpack_eq_decode]
  by_cases hnan : unpackExponent (bitsOf word) = -1#_ ∧ unpackMantissa (bitsOf word) ≠ 0#_
  · have hunpack : unpack .binary64 (bitsOf word) = .notANumber := by
      rw [unpack]
      simp only [hnan.1, hnan.2, if_true, if_false]
    show unpack .binary64 (pack .binary64 (unpack .binary64 (bitsOf word))) = _
    rw [hunpack]
    rfl
  · -- all other words are those of a double
    let x : Float := ⟨⟨word, ⟨fun hexponent hfraction => absurd ⟨hexponent, hfraction⟩ hnan⟩⟩⟩
    show (Float.ofBits x.toBits).toModel.unpack = _
    rw [Float.ofBits_toBits]
    rfl

theorem isNaN_decode_iff : (decode s e f).isNaN = true ↔ e = 2047 ∧ f ≠ 0 := by
  rw [decode]
  split_ifs <;> simp_all [isNaN]

theorem isNaN_ofBits_iff (word : UInt64) :
    (Float.ofBits word).isNaN = true ↔ 2047 * 2 ^ 52 < word.toNat % 2 ^ 63 := by
  have hbits : (bitsOf word).toNat = word.toNat := rfl
  show (Float.ofBits word).toModel.unpack.isNaN = true ↔ _
  rw [unpack_ofBits, isNaN_decode_iff, toNat_unpackExponent, toNat_unpackMantissa, hbits]
  omega

end SeriesPipeline.Decimal
