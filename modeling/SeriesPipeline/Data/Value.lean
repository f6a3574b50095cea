import SeriesPipeline.Decimal.Layout

/-!
# Field values
-/

namespace SeriesPipeline

inductive Value where
  | null
  | bool (b : Bool)
  | int (n : Int64)
  | float (x : Float)
  | text (s : String)
  deriving Inhabited

namespace Value

/-- Numbers in messages never have an exponent, and a whole number has no point. -/
def messageLayout : Decimal.Layout := ⟨none, false, true, .up, "NaN", "inf"⟩

/-- The double nearest to an integer. -/
def floatOfInt (n : Int64) : Float := Float.ofInt n.toInt

def toFloat? : Value → Option Float
  | .int n => some (floatOfInt n)
  | .float x => some x
  | _ => none

def toBool? : Value → Option Bool
  | .bool b => some b
  | _ => none

def isNull : Value → Bool
  | .null => true
  | _ => false

def typeName : Value → String
  | .null => "null"
  | .bool _ => "bool"
  | .int _ => "int"
  | .float _ => "float"
  | .text _ => "string"

/-- A value as messages show it. Quotes inside a text are not escaped. -/
def message : Value → String
  | .null => "null"
  | .bool b => if b then "true" else "false"
  | .int n => toString n.toInt
  | .float x => messageLayout.text x
  | .text s => "'" ++ s ++ "'"

end Value

end SeriesPipeline
