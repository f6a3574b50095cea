import Mathlib.Data.Prod.Lex

/-!
# The order of doubles

Doubles that are numbers have a place on a line, and are compared by it. The two zeros have the same
place.
-/

namespace SeriesPipeline.Decimal

open Float.Model (UnpackedFloat)

/-- Where a double stands. -/
abbrev Place := Int ×ₗ Int ×ₗ Int

/-- Infinities stand at the ends, and between them numbers by sign, exponent and significand. -/
def Place.of? : UnpackedFloat → Option Place
  | .notANumber => none
  | .infinity .negative => some (toLex (-2, toLex (0, 0)))
  | .finite .negative m q _ => some (toLex (-1, toLex (-q, -(m : Int))))
  | .zero _ => some (toLex (0, toLex (0, 0)))
  | .finite .positive m q _ => some (toLex (1, toLex (q, (m : Int))))
  | .infinity .positive => some (toLex (2, toLex (0, 0)))

def place? (x : Float) : Option Place := Place.of? x.toModel.unpack

variable {x y z : Float} {a b : Place}

theorem compare_natCast (m n : Nat) : compare (m : Int) (n : Int) = compare m n := by
  simp only [compare, compareOfLessAndEq, Int.ofNat_lt, Int.natCast_inj]

theorem compare_neg (q r : Int) : compare (-q) (-r) = (compare q r).swap := by
  rw [← Int.compare_swap]
  simp [compare, compareOfLessAndEq, eq_comm]

theorem compare_eq (u v : UnpackedFloat) :
    u.compare v = (Place.of? u).bind fun a => (Place.of? v).map fun b => compare a b := by
  rcases u with (_ | _) | _ | _ | ⟨_ | _, m, q, hm⟩ <;>
    rcases v with (_ | _) | _ | _ | ⟨_ | _, n, r, hn⟩ <;> try rfl
  · show some ((compare q r).then (compare m n)).swap =
      some ((compare (-q) (-r)).then (compare (-(m : Int)) (-(n : Int))))
    rw [compare_neg, compare_neg, compare_natCast, Ordering.swap_then]
  · show some ((compare q r).then (compare m n)) =
      some ((compare q r).then (compare (m : Int) (n : Int)))
    rw [compare_natCast]

theorem lt_iff : x < y ↔ ∃ a b, place? x = some a ∧ place? y = some b ∧ a < b := by
  show decide ((x.toModel.unpack.compare y.toModel.unpack == some .lt) = true) = true ↔ _
  rw [decide_eq_true_iff, compare_eq, place?, place?]
  cases Place.of? x.toModel.unpack <;> cases Place.of? y.toModel.unpack <;> simp [compare_lt_iff_lt]

theorem le_iff : x ≤ y ↔ ∃ a b, place? x = some a ∧ place? y = some b ∧ a ≤ b := by
  show decide ((x.toModel.unpack.compare y.toModel.unpack).any (·.isLE) = true) = true ↔ _
  rw [decide_eq_true_iff, compare_eq, place?, place?]
  cases Place.of? x.toModel.unpack <;> cases Place.of? y.toModel.unpack <;>
    simp [Ordering.isLE_iff_ne_gt, compare_gt_iff_gt]

theorem beq_iff : (x == y) = true ↔ ∃ a, place? x = some a ∧ place? y = some a := by
  show (x.toModel.unpack.compare y.toModel.unpack == some .eq) = true ↔ _
  rw [compare_eq, place?, place?]
  cases Place.of? x.toModel.unpack with
  | none => simp
  | some a =>
    cases Place.of? y.toModel.unpack with
    | none => simp
    | some b =>
      have hcompare : compare a b = .eq ↔ b = a := compare_eq_iff_eq.trans eq_comm
      simpa using hcompare

theorem not_le_of_lt_of_le (h : x < y) (hz : y ≤ z) : ¬ z ≤ x := by
  obtain ⟨a, b, ha, hb, hab⟩ := lt_iff.1 h
  obtain ⟨b', c, hb', hc, hbc⟩ := le_iff.1 hz
  intro hzx
  obtain ⟨c', a', hc', ha', hca⟩ := le_iff.1 hzx
  cases ha.symm.trans ha'
  cases hb.symm.trans hb'
  cases hc.symm.trans hc'
  exact absurd (hab.trans_le hbc) (not_lt_of_ge hca)

end SeriesPipeline.Decimal
