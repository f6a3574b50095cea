import SeriesPipeline.Proofs.Decimal.Fields

/-!
# Signs of doubles

Products and quotients of doubles that are not negative are not negative. Negative zero is not a
negative number.
-/

namespace SeriesPipeline.Decimal

open Float.Model (UnpackedFloat Format)
open Float.Model.UnpackedFloat

variable {u v : UnpackedFloat} {x : Float}

/-- The sign of a double. NaN has none, and is written as if it were positive. -/
def signOf : UnpackedFloat → Sign
  | .notANumber => .positive
  | .infinity s | .zero s | .finite s _ _ _ => s

theorem signOf_roundWithAccuracy (s : Sign) (m : Nat) (e : Int) (a : Accuracy) :
    signOf (roundWithAccuracy .binary64 s m e a) = s := by
  rw [roundWithAccuracy]
  dsimp only
  split <;> rfl

theorem signOf_mul (hu : signOf u = .positive) (hv : signOf v = .positive) :
    signOf (mul .binary64 u v) = .positive := by
  cases u <;> cases v <;> cases hu <;> cases hv <;>
    first | rfl | exact signOf_roundWithAccuracy ..

theorem signOf_div (hu : signOf u = .positive) (hv : signOf v = .positive) :
    signOf (div .binary64 u v) = .positive := by
  cases u <;> cases v <;> cases hu <;> cases hv <;>
    first | rfl | exact signOf_roundWithAccuracy ..

/-! ## Bits -/

theorem unpackSign_pack (u : UnpackedFloat) :
    unpackSign (pack .binary64 u) = (signOf u).toBitVec := by
  cases u with
  | notANumber => exact unpackSign_packComponents ..
  | infinity s => exact unpackSign_packComponents ..
  | zero s => exact unpackSign_packComponents ..
  | finite s m e hm =>
    rw [pack]
    dsimp only
    split_ifs <;> exact unpackSign_packComponents ..

theorem signOf_unpack {b : BitVec Format.binary64.numBits} (h : unpackSign b = 0#1) :
    signOf (unpack .binary64 b) = .positive := by
  rw [unpack]
  simp only [h]
  split_ifs <;> rfl

theorem signOf_unpack_pack (h : signOf u = .positive) :
    signOf (unpack .binary64 (pack .binary64 u)) = .positive := by
  refine signOf_unpack ?_
  rw [unpackSign_pack, h]
  rfl

/-! ## Doubles that are not negative -/

/-- The double is NaN, or stands at zero or above. -/
def NotNegative (u : UnpackedFloat) : Prop := signOf u = .positive ∨ u = .zero .negative

theorem NotNegative.unpack_pack (h : NotNegative u) :
    NotNegative (unpack .binary64 (pack .binary64 u)) := by
  rcases h with h | rfl
  · exact .inl (signOf_unpack_pack h)
  · exact .inr rfl

theorem NotNegative.mul (h : NotNegative u) (hv : signOf v = .positive) :
    NotNegative (UnpackedFloat.mul .binary64 u v) := by
  rcases h with h | rfl
  · exact .inl (signOf_mul h hv)
  · -- zeros stay zeros, except at infinity
    cases v <;> cases hv <;> first | exact .inl rfl | exact .inr rfl

theorem NotNegative.div (h : NotNegative u) (hv : signOf v = .positive) :
    NotNegative (UnpackedFloat.div .binary64 u v) := by
  rcases h with h | rfl
  · exact .inl (signOf_div h hv)
  · cases v <;> cases hv <;> first | exact .inl rfl | exact .inr rfl

theorem place?_zero : place? 0.0 = some (toLex (0, toLex (0, 0))) := by
  rfl

theorem notNegative_iff {a : Place} (h : Place.of? u = some a) :
    NotNegative u ↔ toLex (0, toLex (0, 0)) ≤ a := by
  rw [NotNegative]
  rcases u with (_ | _) | _ | (_ | _) | ⟨_ | _, m, q, hm⟩ <;> cases h <;>
    simp [signOf, Prod.Lex.toLex_le_toLex]

theorem notNegative_of_le (h : 0.0 ≤ x) : NotNegative x.toModel.unpack := by
  obtain ⟨a, b, ha, hb, hab⟩ := le_iff.1 h
  rw [place?_zero] at ha
  cases ha
  exact (notNegative_iff hb).2 hab

theorem signOf_ofNat (n : Nat) : signOf (Float.ofNat n).toModel.unpack = .positive := by
  show signOf (Float.ofScientific n false 0).toModel.unpack = .positive
  rw [Float.ofScientific]
  split
  · have hone : signOf (Float.ofBits 0x3FF0000000000000).toModel.unpack = .positive := by rfl
    refine signOf_unpack_pack (signOf_mul (signOf_unpack_pack ?_) hone)
    show signOf (ofNat .binary64 n.toUInt64.toNat) = .positive
    cases n.toUInt64.toNat with
    | zero => rfl
    | succ k => exact signOf_roundWithAccuracy ..
  · refine signOf_unpack_pack ?_
    show signOf (ofScientific .binary64 n 0) = .positive
    rw [ofScientific]
    split_ifs
    · rfl
    · rfl
    · rfl
    · exact signOf_mul rfl rfl
    · exact signOf_div rfl rfl

end SeriesPipeline.Decimal
