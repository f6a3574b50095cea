/-!
# Decimal numerals

Reading ASCII digits, and the double nearest to a decimal fraction with an exponent.
-/

namespace SeriesPipeline.Text

def isDigit (c : Char) : Bool := '0' ≤ c && c ≤ '9'

def digitValue (c : Char) : Nat := c.toNat - 48

/-- The number a digit list stands for, most significant digit first. -/
def digitsValue (cs : List Char) : Nat := cs.foldl (fun n c => n * 10 + digitValue c) 0

/-- The longest run of digits in front, and the rest. -/
def spanDigits (cs : List Char) : List Char × List Char := cs.span isDigit

/-- One or more digits and nothing else. -/
def natOfDigits? (cs : List Char) : Option Nat :=
  if cs.isEmpty || !cs.all isDigit then none else some (digitsValue cs)

/-- The double nearest to `m * 10 ^ e`, ties to even. Exponents that leave the range of doubles
whatever the digits are cut off first. -/
def floatOfDecimal (m : Nat) (e : Int) : Float :=
  if m = 0 then 0.0
  else
    let magnitude := e + (Nat.toDigits 10 m).length
    if magnitude < -400 then 0.0
    else if 400 < magnitude then 1.0 / 0.0
    else if e < 0 then Float.ofScientific m true e.natAbs
    else Float.ofScientific m false e.natAbs

def signed (negative : Bool) (x : Float) : Float := if negative then -x else x

/-- An exponent part: a letter `e`, an optional sign and digits, or nothing at all. -/
def exponentPart? (cs : List Char) : Option Int :=
  match cs with
  | [] => some 0
  | c :: rest =>
    if c = 'e' || c = 'E' then
      match rest with
      | '-' :: ds => (natOfDigits? ds).map (fun n => -(n : Int))
      | '+' :: ds => (natOfDigits? ds).map Int.ofNat
      | ds => (natOfDigits? ds).map Int.ofNat
    else none

/-- Digits with at most one point among or beside them, at least one digit in all, and an
optional exponent. -/
def unsignedFloat? (cs : List Char) : Option Float :=
  let (whole, rest) := spanDigits cs
  let (fraction, rest) :=
    match rest with
    | '.' :: rest => spanDigits rest
    | rest => ([], rest)
  if whole.isEmpty && fraction.isEmpty then none
  else (exponentPart? rest).map fun e =>
    floatOfDecimal (digitsValue (whole ++ fraction)) (e - fraction.length)

/-- The floating-point texts of the file formats: an optional sign, then a decimal number or, in
any case, one of the words `inf`, `infinity` and `nan`. -/
def float? (s : String) : Option Float :=
  let (negative, cs) :=
    match s.toList with
    | '-' :: cs => (true, cs)
    | '+' :: cs => (false, cs)
    | cs => (false, cs)
  let word := String.ofList (cs.map Char.toLower)
  if word = "inf" || word = "infinity" then some (signed negative (1.0 / 0.0))
  else if word = "nan" then some (0.0 / 0.0)
  else (unsignedFloat? cs).map (signed negative)

end SeriesPipeline.Text
