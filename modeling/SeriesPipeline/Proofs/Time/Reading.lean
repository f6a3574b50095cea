import Mathlib.Data.Rat.Floor
import Mathlib.Tactic.NormNum
import Mathlib.Tactic.Ring
import SeriesPipeline.Proofs.Time.Order
import SeriesPipeline.Proofs.Time.Rfc3339

/-!
# The order of read times

A written time says an exact time, a rational number of nanoseconds with any number of digits.
Reading cuts it to whole nanoseconds, which keeps the order. A time that is no instant is read as
the last one, which keeps the order after the last instant but not before the first.
-/

namespace SeriesPipeline

namespace Rfc3339

open Calendar Text

namespace Form

/-- The part of a second that the digits after the point say. -/
def fractionOfSecond (f : Form) : ℚ :=
  f.fraction.elim 0 fun ds => digitsValue ds / 10 ^ ds.length

/-- The seconds since the epoch in UTC, without the fraction. Second 60 is the one after second
59. -/
def wholeSeconds (f : Form) : Int :=
  f.stamp.date.dayNumber * 86400 +
    (f.stamp.hour * 3600 + f.stamp.minute * 60 + f.stamp.second : Nat) - f.zone.minutesEast * 60

/-- The nanoseconds since the epoch, to the last digit. -/
def exactNanos (f : Form) : ℚ := (f.wholeSeconds + f.fractionOfSecond) * 1000000000

end Form

/-- The text is that of a proper written time, which says the exact time `i`. -/
def Says (cs : List Char) (i : ℚ) : Prop := ∃ f : Form, f.IsProper ∧ f.text = cs ∧ f.exactNanos = i

/-! ## Deciding whether a form is proper -/

instance (n : Nat) (ds : List Char) : Decidable (AreDigits n ds) :=
  decidable_of_iff (ds.length = n ∧ ds.all isDigit = true)
    ⟨fun h => ⟨h.1, List.all_eq_true.1 h.2⟩, fun h => ⟨h.length, List.all_eq_true.2 h.digits⟩⟩

instance : (z : Zone) → Decidable z.IsProper
  | .utc letter => inferInstanceAs (Decidable (letter = 'Z' ∨ letter = 'z'))
  | .offset _ _ _ => inferInstanceAs (Decidable (_ ∧ _))

theorem fraction_all_iff (fraction : Option (List Char)) :
    (fraction.all fun ds => !ds.isEmpty && ds.all isDigit) = true ↔
      ∀ ds ∈ fraction, ds ≠ [] ∧ ∀ d ∈ ds, isDigit d = true := by
  simp [Option.all_eq_true]

instance (f : Form) : Decidable f.IsProper :=
  decidable_of_iff (AreDigits 4 f.year ∧ AreDigits 2 f.month ∧ AreDigits 2 f.day ∧
      (f.separator = 'T' ∨ f.separator = 't' ∨ f.separator = ' ') ∧ AreDigits 2 f.hour ∧
      AreDigits 2 f.minute ∧ AreDigits 2 f.second ∧
      (f.fraction.all fun ds => !ds.isEmpty && ds.all isDigit) = true ∧ f.zone.IsProper ∧
      f.stamp.isValid = true)
    ⟨fun ⟨h₁, h₂, h₃, h₄, h₅, h₆, h₇, h₈, h₉, h₁₀⟩ =>
      ⟨h₁, h₂, h₃, h₄, h₅, h₆, h₇, (fraction_all_iff _).1 h₈, h₉, h₁₀⟩,
      fun h => ⟨h.year, h.month, h.day, h.separator, h.hour, h.minute, h.second,
        (fraction_all_iff _).2 h.fraction, h.zone, h.valid⟩⟩

variable {cs : List Char} {i : ℚ}

theorem exists_says_iff : (∃ i, Says cs i) ↔ ∃ s, stamp? cs = some s := by
  simp only [stamp?_eq_some_iff]
  constructor
  · rintro ⟨_, f, hf, htext, -⟩
    exact ⟨f.stamp, f, hf, htext, rfl⟩
  · rintro ⟨_, f, hf, htext, -⟩
    exact ⟨f.exactNanos, f, hf, htext, rfl⟩

/-- The digits past the ninth are the part of a nanosecond. -/
theorem floor_fractionOfSecond (f : Form) : ⌊f.fractionOfSecond * 1000000000⌋ = f.nanos := by
  rw [Form.fractionOfSecond, Form.nanos]
  cases f.fraction with
  | none => simp
  | some ds =>
    have hquotient : (digitsValue ds : ℚ) / 10 ^ ds.length * 1000000000 =
        ((digitsValue ds * Nat.pow 10 9 : Nat) : ℚ) / ((Nat.pow 10 ds.length : Nat) : ℚ) := by
      have hlength : ((Nat.pow 10 ds.length : Nat) : ℚ) = 10 ^ ds.length := by
        rw [Nat.pow_eq]
        exact Nat.cast_pow 10 ds.length
      have hnine : ((Nat.pow 10 9 : Nat) : ℚ) = 1000000000 := by norm_num
      rw [hlength, Nat.cast_mul, hnine, div_mul_eq_mul_div]
    rw [Option.elim_some, Option.elim_some, hquotient, Rat.floor_natCast_div_natCast,
      Int.natCast_ediv]

theorem floor_exactNanos (f : Form) : ⌊f.exactNanos⌋ = f.stamp.toInt := by
  have hsplit : f.exactNanos =
      ((f.wholeSeconds * 1000000000 : Int) : ℚ) + f.fractionOfSecond * 1000000000 := by
    rw [Form.exactNanos]
    push_cast
    ring
  rw [hsplit, Int.floor_intCast_add, floor_fractionOfSecond]
  rfl

theorem Says.exists_stamp (h : Says cs i) : ∃ s, stamp? cs = some s ∧ s.toInt = ⌊i⌋ := by
  obtain ⟨f, hf, rfl, rfl⟩ := h
  exact ⟨f.stamp, stamp?_text hf, (floor_exactNanos f).symm⟩

end Rfc3339

namespace Instant

open Rfc3339 Text

variable {s t : String} {i j : ℚ} {m n : Int}

/-- The instant at `n` nanoseconds, or the last one if there is none. -/
def orGreatest (n : Int) : Instant := (ofInt? n).getD greatest

theorem toInt_orGreatest (n : Int) : (orGreatest n).toInt =
    if Int64.minValue.toInt ≤ n ∧ n ≤ Int64.maxValue.toInt then n else Int64.maxValue.toInt := by
  rw [orGreatest, ofInt?]
  split
  · rename_i hrange
    have hword : signedWord? n = some (Int64.ofIntLE n hrange.1 hrange.2) := dif_pos hrange
    rw [hword]
    exact toInt_of_signedWord? hword
  · rename_i hrange
    have hword : signedWord? n = none := dif_neg hrange
    rw [hword]
    rfl

/-- Only an integer before the first instant is read too late. -/
theorem orGreatest_le_orGreatest_iff (h : m ≤ n) : orGreatest m ≤ orGreatest n ↔
    least.toInt ≤ m ∨ n < least.toInt ∨ greatest.toInt ≤ n := by
  have hleast : least.toInt = Int64.minValue.toInt := rfl
  have hgreatest : greatest.toInt = Int64.maxValue.toInt := rfl
  have hrange : Int64.minValue.toInt < Int64.maxValue.toInt := by decide
  rw [le_def, toInt_orGreatest, toInt_orGreatest]
  split <;> split <;> omega

theorem ofText?_of_says (h : Says s.toList i) : ofText? s = some (orGreatest ⌊i⌋) := by
  obtain ⟨stamp, hread, hfloor⟩ := h.exists_stamp
  rw [ofText?, hread, Option.map_some, hfloor]
  rfl

theorem isSome_ofText?_iff : (ofText? s).isSome = true ↔ ∃ i, Says s.toList i := by
  rw [exists_says_iff, ofText?, Option.isSome_map, Option.isSome_iff_exists]

/-- A text is read if it says a time. A time that is not after another is read as an instant that is
not after the other's, unless it lies before the first instant and the other one neither does nor
reaches the last. -/
theorem read_in_order_iff (s t : String) :
    ((ofText? s).isSome = true ↔ ∃ i, Says s.toList i) ∧
    ∀ i j : ℚ, Says s.toList i → Says t.toList j → i ≤ j →
      ∃ a b, ofText? s = some a ∧ ofText? t = some b ∧
        (a ≤ b ↔ (least.toInt : ℚ) ≤ i ∨ j < least.toInt ∨ (greatest.toInt : ℚ) ≤ j) := by
  refine ⟨isSome_ofText?_iff, fun i j hs ht hij => ?_⟩
  refine ⟨_, _, ofText?_of_says hs, ofText?_of_says ht, ?_⟩
  -- bounds of instants are whole, so cutting a time does not move it across one
  rw [orGreatest_le_orGreatest_iff (Int.floor_le_floor hij), Int.le_floor, Int.floor_lt,
    Int.le_floor]

/-- Half a nanosecond before the epoch, and the epoch in another zone. -/
theorem read_in_order_iff_halfBefore :
    ∃ a b, ofText? "1969-12-31T23:59:59.9999999995Z" = some a ∧
      ofText? "1970-01-01 01:30:00+01:30" = some b ∧
      (a ≤ b ↔ (least.toInt : ℚ) ≤ -1 / 2 ∨ (0 : ℚ) < least.toInt ∨ (greatest.toInt : ℚ) ≤ 0) := by
  have hfirst : Says "1969-12-31T23:59:59.9999999995Z".toList (-1 / 2) := by
    refine ⟨⟨"1969".toList, "12".toList, "31".toList, 'T', "23".toList, "59".toList, "59".toList,
      some "9999999995".toList, .utc 'Z'⟩, by decide, rfl, ?_⟩
    have hdigits : digitsValue "9999999995".toList = 9999999995 := by decide
    show (((-1 : Int) : ℚ) + (digitsValue "9999999995".toList : ℚ) / 10 ^ 10) * 1000000000 = -1 / 2
    rw [hdigits]
    norm_num
  have hsecond : Says "1970-01-01 01:30:00+01:30".toList 0 := by
    refine ⟨⟨"1970".toList, "01".toList, "01".toList, ' ', "01".toList, "30".toList, "00".toList,
      none, .offset '+' "01".toList "30".toList⟩, by decide, rfl, ?_⟩
    rw [Form.exactNanos, Form.fractionOfSecond, Option.elim_none]
    norm_num
    decide
  exact (read_in_order_iff _ _).2 _ _ hfirst hsecond (by norm_num)

/-- The year 1 is read as a time after the epoch. -/
theorem read_out_of_order :
    ¬ ∀ (s t : String) (i j : ℚ) (a b : Instant), Says s.toList i → Says t.toList j → i ≤ j →
      ofText? s = some a → ofText? t = some b → a ≤ b := by
  intro hordered
  obtain ⟨i, hi⟩ := exists_says_iff.2 ⟨_, (rfl : stamp? "0001-01-01T00:00:00Z".toList = some _)⟩
  obtain ⟨j, hj⟩ := exists_says_iff.2 ⟨_, (rfl : stamp? "1970-01-01T00:00:00Z".toList = some _)⟩
  have hfirst : ⌊i⌋ = -62135596800000000000 := by
    obtain ⟨_, hread, hfloor⟩ := hi.exists_stamp
    cases hread
    exact hfloor.symm
  have hsecond : ⌊j⌋ = 0 := by
    obtain ⟨_, hread, hfloor⟩ := hj.exists_stamp
    cases hread
    exact hfloor.symm
  have hij : i ≤ j := by
    have hbefore : i < 0 := Int.floor_lt_zero.1 (hfirst ▸ by decide)
    have hafter : 0 ≤ j := Int.floor_nonneg.1 (Int.le_of_eq hsecond.symm)
    exact hbefore.le.trans hafter
  exact absurd (hordered _ _ i j greatest epoch hi hj hij rfl rfl) (by decide)

end Instant

end SeriesPipeline
