import SeriesPipeline.Text.Blank
import SeriesPipeline.Text.Numeral

/-!
# Lengths of time

A span is a number of nanoseconds. Literals are digits and a unit; the text of a span uses the
largest unit that divides it.
-/

namespace SeriesPipeline

structure Span where
  nanos : Nat
  deriving DecidableEq

namespace Span

/-- The longest span an instant can be moved by. -/
def longest : Nat := Int64.maxValue.toInt.toNat

def isZero (d : Span) : Bool := d.nanos = 0

/-- The nanoseconds of a span, cut to what an instant can be moved by. -/
def reach (d : Span) : Int := min d.nanos longest

/-- Why a text is no span literal; each case keeps the trimmed text. -/
inductive Error where
  | shape (text : String)
  | unknownUnit (text unit : String)
  | range (text : String)

def Error.message : Error → String
  | .shape text => "invalid duration '" ++ text ++ "': expected <number><unit>"
  | .unknownUnit text unit => "invalid duration '" ++ text ++ "': unknown unit '" ++ unit ++ "'"
  | .range text => "invalid duration '" ++ text ++ "': out of range"

/-- The units of literals, in nanoseconds. -/
def unitNanos? (unit : String) : Option Nat :=
  match unit with
  | "ns" => some 1
  | "u" | "us" | "µs" => some 1000
  | "ms" => some 1000000
  | "s" => some 1000000000
  | "m" => some 60000000000
  | "h" => some 3600000000000
  | "d" => some 86400000000000
  | "w" => some 604800000000000
  | _ => none

/-- Reads a literal such as `10s`. Amounts are below `2 ^ 64`, and the product has to be within
reach of an instant. -/
def parse (source : String) : Except Error Span :=
  let text := Text.trimList source.toList
  let (digits, rest) := Text.spanDigits text
  match Text.natOfDigits? digits with
  | none => .error (.shape (String.ofList text))
  | some amount =>
    if UInt64.size ≤ amount then .error (.shape (String.ofList text))
    else match unitNanos? (String.ofList rest) with
      | none => .error (.unknownUnit (String.ofList text) (String.ofList rest))
      | some size =>
        if longest < amount * size then .error (.range (String.ofList text))
        else .ok ⟨amount * size⟩

/-- The units of written spans, largest first. -/
def writtenUnits : List (Nat × String) :=
  [(3600000000000, "h"), (60000000000, "m"), (1000000000, "s"), (1000000, "ms"), (1000, "us")]

def text (d : Span) : String :=
  if d.nanos = 0 then "0s"
  else match writtenUnits.find? (fun u => d.nanos % u.1 = 0) with
    | some (size, unit) => toString (d.nanos / size) ++ unit
    | none => toString d.nanos ++ "ns"

end Span

end SeriesPipeline
