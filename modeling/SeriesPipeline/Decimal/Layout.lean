import SeriesPipeline.Decimal.Shortest

/-!
# Number layouts

How the shortest digits of a double are set out: where the point goes, when an exponent is
written instead, and what stands for the values that have no digits.
-/

namespace SeriesPipeline.Decimal

structure Layout where
  /-- The exponents of the first digit that are written positionally, lowest and highest; all
  of them when absent. -/
  positional : Option (Int × Int)
  /-- Whether a whole number keeps a final `.0` in positional form. -/
  pointZero : Bool
  /-- Whether a positive exponent carries a sign. -/
  signedExponent : Bool
  tie : Tie
  nan : String
  infinity : String

def zeros (n : Nat) : List Char := List.replicate n '0'

/-- The digits `ds`, first digit at `10 ^ e`, with the point in place. -/
def positionalText (pointZero : Bool) (ds : List Char) (e : Int) : List Char :=
  if e < 0 then '0' :: '.' :: zeros (-e - 1).toNat ++ ds
  else
    let width := e.toNat + 1
    if ds.length ≤ width then
      ds ++ zeros (width - ds.length) ++ if pointZero then ['.', '0'] else []
    else ds.take width ++ '.' :: ds.drop width

def exponentText (signedExponent : Bool) (ds : List Char) (e : Int) : List Char :=
  let mantissa :=
    match ds with
    | [] => []
    | [d] => [d]
    | d :: rest => d :: '.' :: rest
  let sign := if e < 0 then ['-'] else if signedExponent then ['+'] else []
  mantissa ++ 'e' :: sign ++ Nat.toDigits 10 e.natAbs

def Layout.finiteText (layout : Layout) (s : Scaled) : List Char :=
  let ds := Nat.toDigits 10 s.digits
  let e := s.exponent + (ds.length - 1 : Nat)
  let positional :=
    match layout.positional with
    | none => true
    | some (lo, hi) => s.digits = 0 || (lo ≤ e && e ≤ hi)
  if positional then positionalText layout.pointZero ds e
  else exponentText layout.signedExponent ds e

/-- The text of a double. A zero keeps its sign, NaN has none. -/
def Layout.text (layout : Layout) (x : Float) : String :=
  let withSign (negative : Bool) (cs : List Char) : String :=
    String.ofList (if negative then '-' :: cs else cs)
  match Binary.ofFloat x with
  | .nan => layout.nan
  | .infinite negative => withSign negative layout.infinity.toList
  | .finite negative m q => withSign negative (layout.finiteText (shortest layout.tie m q))

end SeriesPipeline.Decimal
