import SeriesPipeline.Expr.Eval

/-!
# Faults of operators
-/

namespace SeriesPipeline

/-- What makes an operator fail on a batch. -/
inductive StageFault where
  | missingField (field : String)
  | notNumeric (field : String) (value : Value)
  | formula (cause : ExprFault)
  | inconsistent (cause : Inconsistency)
  | notBoolean (value : Value)

def StageFault.message : StageFault → String
  | .missingField field => "missing field '" ++ field ++ "'"
  | .notNumeric field value =>
    "field '" ++ field ++ "' is not numeric (got " ++ value.message ++ ")"
  | .formula cause => "expression error: " ++ cause.message
  | .inconsistent cause => "inconsistent batch: " ++ cause.message
  | .notBoolean value =>
    "predicate did not evaluate to a boolean (got " ++ value.message ++ ")"

/-- The value of a formula in a row. -/
def Formula.valueIn (f : Formula) (b : Batch) (row : Row) : Except StageFault Value :=
  match f.evalRow b row with
  | .ok v => .ok v
  | .error cause => .error (.formula cause)

/-- Whether a formula holds in a row. -/
def Formula.holdsIn (f : Formula) (b : Batch) (row : Row) : Except StageFault Bool := do
  match ← f.valueIn b row with
  | .bool truth => .ok truth
  | v => .error (.notBoolean v)

end SeriesPipeline
