import SeriesPipeline.Data.Batch
import SeriesPipeline.Decimal.Binary
import SeriesPipeline.Expr.Parser

/-!
# Evaluating expressions

Integer arithmetic is exact while the result has 64 bits, and goes over to doubles otherwise.
Numbers are compared as doubles. `AND` and `OR` look at their right side only when they need it.
-/

namespace SeriesPipeline

namespace Value

/-- The integer `n` if it has 64 bits. -/
def ofInt? (n : Int) : Option Value := (signedWord? n).map .int

def same : Value → Value → Bool
  | .null, .null => true
  | .bool a, .bool b => a = b
  | .int a, .int b => a = b
  | .float a, .float b => a == b
  | .text a, .text b => a = b
  | _, _ => false

/-- Numbers are equal as doubles, other values when they are the same. -/
def equals (l r : Value) : Bool :=
  match l.toFloat?, r.toFloat? with
  | some a, some b => a == b
  | _, _ => l.same r

def compareFloat? (a b : Float) : Option Ordering :=
  if a < b then some .lt
  else if b < a then some .gt
  else if a == b then some .eq
  else none

/-- Texts are ordered by code points, numbers as doubles; nothing else has an order. -/
def compare? (l r : Value) : Option Ordering :=
  match l, r with
  | .text a, .text b => some (compare a b)
  | _, _ => do compareFloat? (← l.toFloat?) (← r.toFloat?)

end Value

namespace Expr

def mismatch (op : BinaryOp) (l r : Value) : ExprFault :=
  .typeMismatch op.symbol l.typeName r.typeName

/-- The exact result of integer arithmetic; division has none, it always gives doubles. -/
def exactResult? (op : BinaryOp) (a b : Int64) : Option Value :=
  match op with
  | .add => Value.ofInt? (a.toInt + b.toInt)
  | .sub => Value.ofInt? (a.toInt - b.toInt)
  | .mul => Value.ofInt? (a.toInt * b.toInt)
  | .mod =>
    if a = Int64.minValue ∧ b = -1 then none else Value.ofInt? (Int.tmod a.toInt b.toInt)
  | _ => none

def floatArithmetic (op : BinaryOp) (l r : Value) : Except ExprFault Value :=
  match l.toFloat?, r.toFloat? with
  | some a, some b =>
    match op with
    | .add => .ok (.float (a + b))
    | .sub => .ok (.float (a - b))
    | .mul => .ok (.float (a * b))
    | .div => if b == 0.0 then .error .divisionByZero else .ok (.float (a / b))
    | .mod => if b == 0.0 then .error .divisionByZero else .ok (.float (Decimal.remainder a b))
    | _ => .error (mismatch op l r)
  | _, _ => .error (mismatch op l r)

def arithmetic (op : BinaryOp) (l r : Value) : Except ExprFault Value :=
  match l, r with
  | .int a, .int b =>
    if op = .mod ∧ b = 0 then .error .divisionByZero
    else match exactResult? op a b with
      | some v => .ok v
      | none => floatArithmetic op l r
  | _, _ => floatArithmetic op l r

def applyBinary (op : BinaryOp) (l r : Value) : Except ExprFault Value :=
  let ordered (holds : Ordering → Bool) : Except ExprFault Value :=
    match l.compare? r with
    | some o => .ok (.bool (holds o))
    | none => .error (mismatch op l r)
  match op with
  | .eq => .ok (.bool (l.equals r))
  | .ne => .ok (.bool (!l.equals r))
  | .lt => ordered (· == .lt)
  | .le => ordered (· != .gt)
  | .gt => ordered (· == .gt)
  | .ge => ordered (· != .lt)
  | .add =>
    match l, r with
    | .text a, .text b => .ok (.text (a ++ b))
    | l, r => arithmetic .add l r
  | op => arithmetic op l r

def applyUnary (op : UnaryOp) (v : Value) : Except ExprFault Value :=
  match op, v with
  | .neg, .int n =>
    .ok ((Value.ofInt? (-n.toInt)).getD (.float (-Value.floatOfInt n)))
  | .neg, .float x => .ok (.float (-x))
  | .not, .bool b => .ok (.bool (!b))
  | op, v => .error (.typeMismatch op.symbol v.typeName "nothing")

/-- A side of `AND` or `OR`. -/
def truth (op : BinaryOp) (v : Value) : Except ExprFault Bool :=
  match v.toBool? with
  | some b => .ok b
  | none => .error (.typeMismatch op.symbol v.typeName "bool")

/-- The value of an expression where `lookup` gives the values of names. -/
def eval (lookup : String → Option Value) : Expr → Except ExprFault Value
  | .literal v => .ok v
  | .ident name =>
    match lookup name with
    | some v => .ok v
    | none => .error (.unknownIdent name)
  | .unary op e => do applyUnary op (← eval lookup e)
  | .binary .and l r => do
    let b ← truth .and (← eval lookup l)
    if b then return .bool (← truth .and (← eval lookup r)) else return .bool false
  | .binary .or l r => do
    let b ← truth .or (← eval lookup l)
    if b then return .bool true else return .bool (← truth .or (← eval lookup r))
  | .binary op l r => do
    let a ← eval lookup l
    let b ← eval lookup r
    applyBinary op a b

end Expr

/-- A name in a row: the cell of the column of that name, or else the tag. A row too short for the
column has no such name at all. -/
def Batch.lookup (b : Batch) (row : Row) (name : String) : Option Value :=
  match b.columnIndex name with
  | some i => row.values[i]?
  | none => (b.tags.get? name).map .text

def Formula.evalRow (f : Formula) (b : Batch) (row : Row) : Except ExprFault Value :=
  f.root.eval (b.lookup row)

end SeriesPipeline
