import SeriesPipeline.Expr.Lexer

/-!
# Parsing expressions

Binary operators associate to the left and bind by rank. A minus sign in front binds tighter than
any binary operator; `NOT` covers a whole comparison.
-/

namespace SeriesPipeline

namespace Expr

abbrev Tokens := List (Nat × Token)

/-- The offset of the next token, or of the last one of the text when none is left. -/
def offset (last : Nat) (ts : Tokens) : Nat :=
  match ts with
  | [] => last
  | (pos, _) :: _ => pos

/-- The binary operator in front. -/
def operator? (ts : Tokens) : Option (BinaryOp × Tokens) :=
  match ts with
  | (_, .op op) :: rest => some (op, rest)
  | (_, .minus) :: rest => some (.sub, rest)
  | _ => none

mutual

/-- An expression whose binary operators, outside parentheses, have a rank above `rank`. The fuel
bounds the depth of calls; no token opens more than three. -/
def expression (last : Nat) : Nat → Nat → Tokens → Except ExprFault (Expr × Tokens)
  | 0, _, ts => .error (.parse (offset last ts) .ended)
  | fuel + 1, rank, ts => do
    let (l, ts) ← operand last fuel ts
    extend last fuel rank l ts

/-- Takes operators of a rank above `rank` and their right sides to the expression `l`. -/
def extend (last : Nat) : Nat → Nat → Expr → Tokens → Except ExprFault (Expr × Tokens)
  | 0, _, _, ts => .error (.parse (offset last ts) .ended)
  | fuel + 1, rank, l, ts =>
    match operator? ts with
    | none => .ok (l, ts)
    | some (op, rest) =>
      if op.rank ≤ rank then .ok (l, ts)
      else do
        let (r, ts) ← expression last fuel op.rank rest
        extend last fuel rank (.binary op l r) ts

def operand (last : Nat) : Nat → Tokens → Except ExprFault (Expr × Tokens)
  | 0, ts => .error (.parse (offset last ts) .ended)
  | fuel + 1, ts =>
    match ts with
    | [] => .error (.parse last .ended)
    | (pos, t) :: rest =>
      match t with
      | .int n => .ok (.literal (.int n), rest)
      | .float x => .ok (.literal (.float x), rest)
      | .text s => .ok (.literal (.text s), rest)
      | .bool b => .ok (.literal (.bool b), rest)
      | .ident s => .ok (.ident s, rest)
      | .minus => do
        let (e, ts) ← expression last fuel BinaryOp.mul.rank rest
        .ok (.unary .neg e, ts)
      | .not => do
        let (e, ts) ← expression last fuel BinaryOp.and.rank rest
        .ok (.unary .not e, ts)
      | .openParen => do
        let (e, ts) ← expression last fuel 0 rest
        match ts with
        | (_, .closeParen) :: ts => .ok (e, ts)
        | ts => .error (.parse (offset last (ts.drop 1)) .unclosed)
      | t => .error (.parse pos (.unexpected t))

end

def ofTokens (ts : Tokens) : Except ExprFault Expr :=
  match ts.getLast? with
  | none => .error (.parse 0 .empty)
  | some (last, _) => do
    let (e, ts) ← expression last (3 * ts.length + 3) 0 ts
    match ts with
    | [] => .ok e
    | (pos, t) :: _ => .error (.parse pos (.trailing t))

end Expr

/-- A parsed expression and its text without surrounding white space. -/
structure Formula where
  source : String
  root : Expr
  deriving Inhabited

def Formula.parse (source : String) : Except ExprFault Formula := do
  let tokens ← Token.scan source.toList
  let root ← Expr.ofTokens tokens
  return ⟨Text.trim source, root⟩

end SeriesPipeline
