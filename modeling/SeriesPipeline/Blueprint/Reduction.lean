import SeriesPipeline.Blueprint.Grouping
import SeriesPipeline.Expr.Eval

/-!
# Mapping and reducing rows
-/

namespace SeriesPipeline

/-- What a row contributes. -/
inductive Mapping where
  /-- One for each row, or for each row with a value in the field when there is a field. -/
  | count
  /-- The field. -/
  | identity
  | formula (f : Formula)

def Mapping.name : Mapping → String
  | .count => "count"
  | .identity => "identity"
  | .formula _ => "expr"

/-- How the contributions of a batch are put together. -/
inductive Reduction where
  | sum
  | mean
  | min
  | max
  | count
  | first
  | last
  | percentile (p : Float)
  /-- Every contribution is a row of its own. -/
  | identity

namespace Reduction

def name : Reduction → String
  | .sum => "sum"
  | .mean => "mean"
  | .min => "min"
  | .max => "max"
  | .count => "count"
  | .first => "first"
  | .last => "last"
  | .percentile _ => "percentile"
  | .identity => "identity"

inductive Fault where
  | percentile (inner text : String)
  | unknown (name : String)

def Fault.message : Fault → String
  | .percentile inner text => "invalid percentile '" ++ inner ++ "' in '" ++ text ++ "'"
  | .unknown name => "unknown reduce function '" ++ name ++ "'"

def parse (source : String) : Except Fault Reduction :=
  let cs := Text.trimList source.toList
  match Grouping.enclosed? "percentile(" cs with
  | some inner =>
    match Text.float? (String.ofList (Text.trimList inner)) with
    | some p => .ok (.percentile p)
    | none => .error (.percentile (String.ofList inner) (String.ofList cs))
  | none =>
    match String.ofList cs with
    | "sum" => .ok .sum
    | "mean" => .ok .mean
    | "min" => .ok .min
    | "max" => .ok .max
    | "count" => .ok .count
    | "first" => .ok .first
    | "last" => .ok .last
    | "identity" => .ok .identity
    | other => .error (.unknown other)

end Reduction

end SeriesPipeline
