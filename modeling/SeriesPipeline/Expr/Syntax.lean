import SeriesPipeline.Data.Value
import SeriesPipeline.Text.Quoted

/-!
# Expressions

Expressions filter rows, decide alerts and compute columns.
-/

namespace SeriesPipeline

inductive UnaryOp where
  | neg
  | not
  deriving DecidableEq

inductive BinaryOp where
  | or | and
  | eq | ne | lt | le | gt | ge
  | add | sub | mul | div | mod
  deriving DecidableEq

def UnaryOp.symbol : UnaryOp → String
  | .neg => "-"
  | .not => "NOT"

namespace BinaryOp

def symbol : BinaryOp → String
  | .or => "OR"
  | .and => "AND"
  | .eq => "=="
  | .ne => "!="
  | .lt => "<"
  | .le => "<="
  | .gt => ">"
  | .ge => ">="
  | .add => "+"
  | .sub => "-"
  | .mul => "*"
  | .div => "/"
  | .mod => "%"

/-- The operator's name in messages. -/
def name : BinaryOp → String
  | .or => "Or"
  | .and => "And"
  | .eq => "Eq"
  | .ne => "NotEq"
  | .lt => "Lt"
  | .le => "LtEq"
  | .gt => "Gt"
  | .ge => "GtEq"
  | .add => "Add"
  | .sub => "Sub"
  | .mul => "Mul"
  | .div => "Div"
  | .mod => "Mod"

/-- Operators of a higher rank bind tighter. -/
def rank : BinaryOp → Nat
  | .or => 1
  | .and => 2
  | .eq | .ne | .lt | .le | .gt | .ge => 3
  | .add | .sub => 4
  | .mul | .div | .mod => 5

end BinaryOp

inductive Expr where
  | literal (v : Value)
  | ident (name : String)
  | unary (op : UnaryOp) (e : Expr)
  | binary (op : BinaryOp) (l r : Expr)
  deriving Inhabited

inductive Token where
  | int (n : Int64)
  | float (x : Float)
  | text (s : String)
  | ident (s : String)
  | bool (b : Bool)
  | op (o : BinaryOp)
  | minus
  | not
  | openParen
  | closeParen

namespace Token

/-- Numbers in token names: positional between `0.0001` and `10 ^ 16`, with a point or an
exponent. -/
def numberLayout : Decimal.Layout := ⟨some (-4, 15), true, false, .up, "NaN", "inf"⟩

/-- The token's name in messages. -/
def name : Token → String
  | .int n => "Number(Int(" ++ toString n.toInt ++ "))"
  | .float x => "Number(Float(" ++ numberLayout.text x ++ "))"
  | .text s => "Str(" ++ Text.quoted s ++ ")"
  | .ident s => "Ident(" ++ Text.quoted s ++ ")"
  | .bool b => if b then "Bool(true)" else "Bool(false)"
  | .op o => "Op(" ++ o.name ++ ")"
  | .minus => "Minus"
  | .not => "Not"
  | .openParen => "LParen"
  | .closeParen => "RParen"

end Token

/-- What is wrong with the text of an expression. -/
inductive SyntaxFault where
  | empty
  | trailing (t : Token)
  | unexpected (t : Token)
  | ended
  | unclosed
  | unterminated
  | number (text : String)
  | single (c : Char)
  | character (c : Char)

def SyntaxFault.message : SyntaxFault → String
  | .empty => "empty expression"
  | .trailing t => "unexpected trailing token " ++ t.name
  | .unexpected t => "unexpected token " ++ t.name
  | .ended => "unexpected end of expression"
  | .unclosed => "expected ')'"
  | .unterminated => "unterminated quoted text"
  | .number text => "invalid number '" ++ text ++ "'"
  | .single c => "expected '" ++ String.ofList [c, c] ++ "'"
  | .character c => "unexpected character '" ++ String.ofList [c] ++ "'"

/-- Faults of reading and of evaluating an expression. Offsets count bytes. -/
inductive ExprFault where
  | parse (offset : Nat) (cause : SyntaxFault)
  | unknownIdent (name : String)
  | typeMismatch (op left right : String)
  | divisionByZero

def ExprFault.message : ExprFault → String
  | .parse offset cause => "parse error at offset " ++ toString offset ++ ": " ++ cause.message
  | .unknownIdent name => "unknown identifier '" ++ name ++ "'"
  | .typeMismatch op left right => "cannot apply '" ++ op ++ "' to " ++ left ++ " and " ++ right
  | .divisionByZero => "division by zero"

end SeriesPipeline
