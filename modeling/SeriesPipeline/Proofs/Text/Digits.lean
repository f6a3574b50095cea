import Mathlib.Data.List.TakeDrop
import Mathlib.Data.List.TakeWhile
import SeriesPipeline.Text.Numeral

/-!
# Decimal digits

A number is read back from its digits, with zeros in front of them or not. A run of digits is read
as far as it goes.
-/

namespace SeriesPipeline.Text

variable {ds rest : List Char} {c : Char} {n : Nat}

theorem digitsValue_eq (ds : List Char) : digitsValue ds = Nat.ofDigitChars 10 ds 0 := by
  rw [digitsValue, Nat.ofDigitChars_eq_foldl]
  congr 1
  funext n c
  rw [Nat.mul_comm]
  rfl

theorem digitsValue_append (ds rest : List Char) :
    digitsValue (ds ++ rest) = digitsValue ds * Nat.pow 10 rest.length + digitsValue rest := by
  rw [digitsValue_eq, digitsValue_eq, digitsValue_eq, Nat.ofDigitChars_append,
    Nat.ofDigitChars_eq_ofDigitChars_zero, Nat.mul_comm]
  rfl

theorem digitsValue_lt (h : ∀ d ∈ ds, isDigit d = true) :
    digitsValue ds < Nat.pow 10 ds.length := by
  induction ds with
  | nil => exact Nat.one_pos
  | cons d ds ih =>
    have hd : digitsValue [d] < 10 := by
      have hd : d.toNat ≤ 57 := (Char.isDigit_iff_toNat.1 (h d List.mem_cons_self)).2
      show 0 * 10 + (d.toNat - 48) < 10
      omega
    calc digitsValue (d :: ds)
        = digitsValue [d] * Nat.pow 10 ds.length + digitsValue ds := digitsValue_append [d] ds
      _ < digitsValue [d] * Nat.pow 10 ds.length + Nat.pow 10 ds.length :=
        Nat.add_lt_add_left (ih fun d hd => h d (List.mem_cons_of_mem _ hd)) _
      _ = (digitsValue [d] + 1) * Nat.pow 10 ds.length := (Nat.succ_mul _ _).symm
      _ ≤ 10 * Nat.pow 10 ds.length := Nat.mul_le_mul_right _ hd
      _ = Nat.pow 10 (d :: ds).length := (Nat.pow_succ').symm

theorem digitsValue_toDigits (n : Nat) : digitsValue (Nat.toDigits 10 n) = n := by
  rw [digitsValue_eq, Nat.ofDigitChars_ten_toDigits]

theorem digitsValue_zeros_append (k : Nat) (ds : List Char) :
    digitsValue (List.replicate k '0' ++ ds) = digitsValue ds := by
  rw [digitsValue_append, digitsValue_eq (List.replicate k '0'), Nat.ofDigitChars_replicate_zero,
    Nat.mul_zero, Nat.zero_mul, Nat.zero_add]

/-- One or more digits and nothing else are read as their number. -/
theorem natOfDigits?_eq_some_iff :
    natOfDigits? ds = some n ↔ ds ≠ [] ∧ (∀ d ∈ ds, isDigit d = true) ∧ digitsValue ds = n := by
  unfold natOfDigits?
  split <;> grind

theorem isDigit_of_mem_toDigits (h : c ∈ Nat.toDigits 10 n) : isDigit c = true :=
  Nat.isDigit_of_mem_toDigits (by decide) (by decide) h

theorem exists_toDigits_eq_cons (n : Nat) :
    ∃ d ds, Nat.toDigits 10 n = d :: ds ∧ isDigit d = true := by
  obtain ⟨d, ds, hds⟩ := List.exists_cons_of_ne_nil (Nat.toDigits_ne_nil (n := n) (b := 10))
  exact ⟨d, ds, hds, isDigit_of_mem_toDigits (hds ▸ List.mem_cons_self)⟩

/-- Only zero is written with a zero in front. -/
theorem head?_toDigits_ne (h : 1 < (Nat.toDigits 10 n).length) :
    (Nat.toDigits 10 n).head? ≠ some '0' := by
  induction n using Nat.base_induction 10 (by decide) with
  | single n hn =>
    rw [Nat.toDigits_of_lt_base hn, List.length_singleton] at h
    exact absurd h (Nat.lt_irrefl 1)
  | digit n k hk hn ih =>
    -- the first digit is that of all digits but the last
    have hhead : (Nat.toDigits 10 (10 * n + k)).head? = (Nat.toDigits 10 n).head? := by
      rw [← Nat.toDigits_append_toDigits (by decide) hn hk, List.head?_append]
      exact Option.or_of_isSome (List.isSome_head?.2 Nat.toDigits_ne_nil)
    rw [hhead]
    by_cases hlt : n < 10
    · rw [Nat.toDigits_of_lt_base hlt, List.head?_cons, ne_eq, Option.some.injEq,
        Nat.digitChar_eq_zero]
      exact Nat.ne_of_gt hn
    · refine ih (Nat.lt_of_not_le fun hle => hlt ?_)
      exact (Nat.length_toDigits_le_iff (by decide) (by decide)).1 hle

/-! ## Runs of digits -/

/-- A run of digits ends at the first character that is none. -/
theorem spanDigits_append (hds : ∀ d ∈ ds, isDigit d = true)
    (hrest : ∀ c ∈ rest.head?, isDigit c = false) : spanDigits (ds ++ rest) = (ds, rest) := by
  have htake : rest.takeWhile isDigit = [] := by
    cases rest with
    | nil => rfl
    | cons c rest => exact List.takeWhile_cons_of_neg (by simp [hrest c rfl])
  have hdrop : rest.dropWhile isDigit = rest := by
    cases rest with
    | nil => rfl
    | cons c rest => exact List.dropWhile_cons_of_neg (by simp [hrest c rfl])
  rw [spanDigits, List.span_eq_takeWhile_dropWhile, List.takeWhile_append_of_pos hds,
    List.dropWhile_append_of_pos hds, htake, hdrop, List.append_nil]

theorem of_spanDigits_eq {cs : List Char} (h : spanDigits cs = (ds, rest)) :
    cs = ds ++ rest ∧ ∀ d ∈ ds, isDigit d = true := by
  rw [spanDigits, List.span_eq_takeWhile_dropWhile] at h
  cases h
  exact ⟨List.takeWhile_append_dropWhile.symm, fun d hd => List.mem_takeWhile_imp hd⟩

end SeriesPipeline.Text
