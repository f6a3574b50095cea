import SeriesPipeline.Expr.Eval
import SeriesPipeline.Proofs.Decimal.Integers

/-!
# Integers in expressions

Arithmetic on two integers is exact while the result has 64 bits. Comparing them is not: both become
doubles first, and integers that are rounded to one double count as equal.
-/

namespace SeriesPipeline.Expr

open Decimal (roundedInt)

variable {lookup : String → Option Value} {l r : Expr} {a b : Int64}

/-- All operators but two take the values of both sides. -/
theorem eval_binary {op : BinaryOp} {v w : Value} (hl : l.eval lookup = .ok v)
    (hr : r.eval lookup = .ok w) (hop : op ≠ .and ∧ op ≠ .or) :
    (binary op l r).eval lookup = applyBinary op v w := by
  rw [eval, hl, hr]
  · rfl
  · exact hop.1
  · exact hop.2

/-! ## Comparisons -/

/-- The operators that compare. -/
inductive Relation where
  | eq | ne | lt | le | gt | ge

namespace Relation

def op : Relation → BinaryOp
  | eq => .eq
  | ne => .ne
  | lt => .lt
  | le => .le
  | gt => .gt
  | ge => .ge

def holds (m n : Int) : Relation → Bool
  | eq => m = n
  | ne => m ≠ n
  | lt => m < n
  | le => m ≤ n
  | gt => m > n
  | ge => m ≥ n

theorem holds_congr {m n m' n' : Int} (hlt : m < n ↔ m' < n') (hgt : n < m ↔ n' < m')
    (rel : Relation) : rel.holds m n = rel.holds m' n' := by
  cases rel <;> simp only [holds, decide_eq_decide] <;> omega

end Relation

theorem equals_int (a b : Int64) :
    (Value.int a).equals (.int b) = decide (roundedInt a.toInt = roundedInt b.toInt) :=
  Decimal.floatOfInt_beq a b

theorem compare?_int (a b : Int64) :
    (Value.int a).compare? (.int b) = some (compare (roundedInt a.toInt) (roundedInt b.toInt)) := by
  show Value.compareFloat? (Value.floatOfInt a) (Value.floatOfInt b) = _
  rw [Value.compareFloat?, Decimal.floatOfInt_beq]
  simp only [Decimal.floatOfInt_lt_iff]
  rcases Int.lt_trichotomy (roundedInt a.toInt) (roundedInt b.toInt) with hlt | heq | hgt
  · rw [if_pos hlt, Int.compare_eq_lt.2 hlt]
  · simp [heq]
  · rw [if_neg (by omega), if_pos hgt, Int.compare_eq_gt.2 hgt]

theorem applyBinary_int (rel : Relation) (a b : Int64) :
    applyBinary rel.op (.int a) (.int b) =
      .ok (.bool (rel.holds (roundedInt a.toInt) (roundedInt b.toInt))) := by
  have hlt := @Int.compare_eq_lt (roundedInt a.toInt) (roundedInt b.toInt)
  have hgt := @Int.compare_eq_gt (roundedInt a.toInt) (roundedInt b.toInt)
  cases rel <;>
    simp only [Relation.op, applyBinary, equals_int, compare?_int, Relation.holds, bne,
      beq_eq_decide, hlt, hgt, ← decide_not, Int.not_lt, gt_iff_lt, ge_iff_le]

theorem eval_relation (hl : l.eval lookup = .ok (.int a)) (hr : r.eval lookup = .ok (.int b))
    (rel : Relation) :
    (binary rel.op l r).eval lookup =
      .ok (.bool (rel.holds (roundedInt a.toInt) (roundedInt b.toInt))) := by
  rw [eval_binary hl hr (by cases rel <;> decide), applyBinary_int]

theorem holds_roundedInt {m n : Int} (h : roundedInt m = roundedInt n → m = n) (rel : Relation) :
    rel.holds (roundedInt m) (roundedInt n) = rel.holds m n := by
  -- rounding keeps the order, so only different numbers that become one are lost
  have hle : m ≤ n → roundedInt m ≤ roundedInt n := Decimal.roundedInt_le_roundedInt
  have hge : n ≤ m → roundedInt n ≤ roundedInt m := Decimal.roundedInt_le_roundedInt
  exact rel.holds_congr (by omega) (by omega)

/-- Integers are compared after rounding to 53 bits. All comparisons of two integers are right if
and only if rounding keeps them apart, as it does when one of them is below `2 ^ 53`. -/
theorem integers_compare_rounded (hl : l.eval lookup = .ok (.int a))
    (hr : r.eval lookup = .ok (.int b)) :
    (∀ rel : Relation, (binary rel.op l r).eval lookup =
      .ok (.bool (rel.holds (roundedInt a.toInt) (roundedInt b.toInt)))) ∧
    ((∀ rel : Relation, (binary rel.op l r).eval lookup =
        .ok (.bool (rel.holds a.toInt b.toInt))) ↔
      (roundedInt a.toInt = roundedInt b.toInt → a = b)) ∧
    (a.toInt.natAbs < 2 ^ 53 ∨ b.toInt.natAbs < 2 ^ 53 →
      ∀ rel : Relation, (binary rel.op l r).eval lookup =
        .ok (.bool (rel.holds a.toInt b.toInt))) := by
  have heval := eval_relation hl hr
  have hiff : (∀ rel : Relation, (binary rel.op l r).eval lookup =
        .ok (.bool (rel.holds a.toInt b.toInt))) ↔
      (roundedInt a.toInt = roundedInt b.toInt → a = b) := by
    refine ⟨fun hexact hrounded => ?_, fun happart rel => ?_⟩
    · have heq := (heval .eq).symm.trans (hexact .eq)
      simpa [Relation.holds, hrounded, Int64.toInt_inj] using heq
    · rw [heval rel, holds_roundedInt (fun h => congrArg Int64.toInt (happart h))]
  exact ⟨heval, hiff, fun hsmall => hiff.2 fun hrounded =>
    Int64.toInt_inj.1 (Decimal.eq_of_roundedInt_eq hsmall hrounded)⟩

theorem integers_compare_rounded_pastBits :
    (∀ rel : Relation, (binary rel.op (.literal (.int 9007199254740993)) (.ident "n")).eval
        (fun _ => some (.int 9007199254740992)) =
      .ok (.bool (rel.holds 9007199254740992 9007199254740992))) ∧
    (∀ rel : Relation, (binary rel.op (.literal (.int (-5))) (.ident "n")).eval
        (fun _ => some (.int 9007199254740993)) =
      .ok (.bool (rel.holds (-5) 9007199254740993))) :=
  ⟨(integers_compare_rounded (a := 9007199254740993) (b := 9007199254740992) rfl rfl).1,
    (integers_compare_rounded (a := -5) (b := 9007199254740993) rfl rfl).2.2 (by decide)⟩

/-- Two different integers that are equal. -/
theorem integers_compare_equal :
    ¬ ∀ (a b : Int64) (rel : Relation),
      (binary rel.op (.literal (.int a)) (.literal (.int b))).eval (fun _ => none) =
        .ok (.bool (rel.holds a.toInt b.toInt)) := by
  intro hexact
  have heq := (eval_relation rfl rfl .eq).symm.trans (hexact 9007199254740993 9007199254740992 .eq)
  injection heq with heq
  injection heq with heq
  exact absurd heq (by decide)

/-! ## Arithmetic -/

/-- The operators that are exact on integers. -/
inductive Operation where
  | add | sub | mul | rem

namespace Operation

def op : Operation → BinaryOp
  | add => .add
  | sub => .sub
  | mul => .mul
  | rem => .mod

def exact (m n : Int) : Operation → Int
  | add => m + n
  | sub => m - n
  | mul => m * n
  | rem => m.tmod n

def double (x y : Float) : Operation → Float
  | add => x + y
  | sub => x - y
  | mul => x * y
  | rem => Decimal.remainder x y

end Operation

/-- A value is the integer `n` if that has 64 bits, and the double `x` otherwise. -/
inductive IsExact (n : Int) (x : Float) : Value → Prop
  | int {w : Int64} (h : w.toInt = n) : IsExact n x (.int w)
  | float (h : n < Int64.minValue.toInt ∨ Int64.maxValue.toInt < n) : IsExact n x (.float x)

theorem isExact_getD (n : Int) (x : Float) : IsExact n x ((Value.ofInt? n).getD (.float x)) := by
  rw [Value.ofInt?]
  cases hword : signedWord? n with
  | some w => exact .int (toInt_of_signedWord? hword)
  | none =>
    rw [signedWord?, dite_eq_right_iff] at hword
    refine .float (Decidable.byContradiction fun hfits => ?_)
    cases hword (by omega)

/-- No other integer becomes zero. -/
theorem floatOfInt_beq_zero (h : b ≠ 0) : (Value.floatOfInt b == 0.0) = false := by
  have hzero : Value.floatOfInt 0 = 0.0 := by rfl
  rw [← hzero, Decimal.floatOfInt_beq, decide_eq_false_iff_not]
  intro hrounded
  exact h (Int64.toInt_inj.1 (Decimal.eq_of_roundedInt_eq (.inr (by decide)) hrounded))

theorem applyBinary_operation (o : Operation) (h : o = .rem → b ≠ 0) :
    applyBinary o.op (.int a) (.int b) =
      .ok ((exactResult? o.op a b).getD
        (.float (o.double (Value.floatOfInt a) (Value.floatOfInt b)))) := by
  have hdouble : floatArithmetic o.op (.int a) (.int b) =
      .ok (.float (o.double (Value.floatOfInt a) (Value.floatOfInt b))) := by
    cases o with
    | rem =>
      show (if Value.floatOfInt b == 0.0 then _ else _) = _
      rw [floatOfInt_beq_zero (h rfl)]
      rfl
    | _ => rfl
  have happly : applyBinary o.op (.int a) (.int b) = arithmetic o.op (.int a) (.int b) := by
    cases o <;> rfl
  have hdivisor : ¬ (o.op = .mod ∧ b = 0) := by
    rintro ⟨hop, rfl⟩
    cases o with
    | rem => exact h rfl rfl
    | _ => cases hop
  rw [happly, arithmetic, if_neg hdivisor]
  cases exactResult? o.op a b with
  | some v => rfl
  | none => exact hdouble

theorem exactResult?_operation (o : Operation)
    (h : ¬ (o = .rem ∧ a = Int64.minValue ∧ b = -1)) :
    exactResult? o.op a b = Value.ofInt? (o.exact a.toInt b.toInt) := by
  cases o with
  | rem => exact if_neg fun hpair => h ⟨rfl, hpair⟩
  | _ => rfl

theorem eval_operation (hl : l.eval lookup = .ok (.int a)) (hr : r.eval lookup = .ok (.int b))
    (o : Operation) :
    (binary o.op l r).eval lookup = applyBinary o.op (.int a) (.int b) :=
  eval_binary hl hr (by cases o <;> decide)

/-- Arithmetic on integers is exact while the result has 64 bits and goes over to doubles otherwise,
save that the remainder of the least integer by `-1` is a double although it is zero. -/
theorem integer_arithmetic_exact (hl : l.eval lookup = .ok (.int a))
    (hr : r.eval lookup = .ok (.int b)) :
    (∀ o : Operation, (o = .rem → b ≠ 0) → ¬ (o = .rem ∧ a = Int64.minValue ∧ b = -1) →
      ∃ v, (binary o.op l r).eval lookup = .ok v ∧
        IsExact (o.exact a.toInt b.toInt) (o.double (Value.floatOfInt a) (Value.floatOfInt b)) v) ∧
    (a = Int64.minValue → b = -1 → (binary .mod l r).eval lookup = .ok (.float (-0.0))) ∧
    (b = 0 → (binary .mod l r).eval lookup = .error .divisionByZero) ∧
    ∃ v, (unary .neg l).eval lookup = .ok v ∧ IsExact (-a.toInt) (-Value.floatOfInt a) v := by
  refine ⟨fun o hdivisor hpair => ?_, ?_, ?_, ?_⟩
  · rw [eval_operation hl hr, applyBinary_operation o hdivisor, exactResult?_operation o hpair]
    exact ⟨_, rfl, isExact_getD _ _⟩
  · rintro rfl rfl
    rw [show BinaryOp.mod = Operation.rem.op from rfl, eval_operation hl hr]
    rfl
  · rintro rfl
    rw [show BinaryOp.mod = Operation.rem.op from rfl, eval_operation hl hr]
    rfl
  · rw [eval, hl]
    exact ⟨_, rfl, isExact_getD _ _⟩

theorem integer_arithmetic_exact_atEnds :
    (∃ v, (binary .add (.ident "n") (.literal (.int 1))).eval
        (fun _ => some (.int 9223372036854775807)) = .ok v ∧
      IsExact 9223372036854775808
        (Value.floatOfInt 9223372036854775807 + Value.floatOfInt 1) v) ∧
    (binary .mod (.ident "n") (.literal (.int (-1)))).eval
      (fun _ => some (.int Int64.minValue)) = .ok (.float (-0.0)) ∧
    (binary .mod (.ident "n") (.literal (.int 0))).eval (fun _ => some (.int 7)) =
      .error .divisionByZero ∧
    ∃ v, (unary .neg (.ident "n")).eval (fun _ => some (.int Int64.minValue)) = .ok v ∧
      IsExact 9223372036854775808 (-Value.floatOfInt Int64.minValue) v :=
  ⟨(integer_arithmetic_exact (a := 9223372036854775807) (b := 1) rfl rfl).1 .add nofun nofun,
    (integer_arithmetic_exact (a := Int64.minValue) (b := -1) rfl rfl).2.1 rfl rfl,
    (integer_arithmetic_exact (a := 7) (b := 0) rfl rfl).2.2.1 rfl,
    (integer_arithmetic_exact (r := .ident "n") (a := Int64.minValue) rfl rfl).2.2.2⟩

/-- A remainder of zero that is not the integer zero. -/
theorem integer_arithmetic_loses_remainder :
    ¬ ∀ a b : Int64, b ≠ 0 →
      ∃ v x, (binary .mod (.ident "n") (.literal (.int b))).eval (fun _ => some (.int a)) = .ok v ∧
        IsExact (a.toInt.tmod b.toInt) x v := by
  intro hexact
  obtain ⟨v, x, heval, hv⟩ := hexact Int64.minValue (-1) (by decide)
  cases heval
  cases hv with
  | float hlarge => exact absurd hlarge (by decide)

end SeriesPipeline.Expr
