import SeriesPipeline.Json.Reader

/-!
# Numbers and truth values of TOML documents

Underscores may stand between digits. Decimal integers may have a sign and no leading zero; other
radices have a lowercase letter and no sign. Only what is in front decides whether a word is taken
for a number: a radix without digits, an integer that goes on with other characters after an
underscore, and a number too large for a double are well formed but have no value.
-/

namespace SeriesPipeline.Toml

open Text

inductive Sign where
  | absent
  | plus
  | minus

def Sign.isWritten : Sign → Bool
  | .absent => false
  | _ => true

def Sign.isMinus : Sign → Bool
  | .minus => true
  | _ => false

def isHexDigit (c : Char) : Bool := (Json.hexValue? c).isSome

/-- Whether every underscore has a digit after it and, if nothing else allows it (`allowed`), one
before it. -/
def underscoresFit (isOne : Char → Bool) (allowed : Bool) : List Char → Bool
  | [] => true
  | '_' :: rest => allowed && rest.head?.any isOne && underscoresFit isOne false rest
  | c :: rest => underscoresFit isOne (isOne c) rest

def withoutUnderscores (cs : List Char) : List Char := cs.filter (· ≠ '_')

/-- The digits in front, among which underscores do not count, and the rest. -/
def spanPlaces (cs : List Char) : List Char × List Char :=
  let (places, rest) := cs.span fun c => isDigit c || c = '_'
  (withoutUnderscores places, rest)

/-- An integer after the mark of its radix. -/
def radixInteger? (radix : Nat) (cs : List Char) : Option Json :=
  let isOne (c : Char) : Bool := (Json.hexValue? c).any (· < radix)
  let ds := withoutUnderscores cs
  if !underscoresFit isOne false cs || !ds.all isOne then none
  else if ds.isEmpty then some .unreadable
  else
    let n : Nat := ds.foldl (fun n d => n * radix + (Json.hexValue? d).getD 0) 0
    some (.int n)

/-- Whether digits start with a zero that means nothing. -/
def hasIdleZero (cs : List Char) (digits : Nat) : Bool := cs.head? = some '0' && 1 < digits

/-- The digits after a point, if there is one. -/
def places? : List Char → Option (List Char × List Char)
  | '.' :: rest =>
    let (ds, rest) := spanPlaces rest
    if ds.isEmpty then none else some (ds, rest)
  | rest => some ([], rest)

/-- The exponent after its letter, if there is one. -/
def power? : List Char → Option (Int × List Char)
  | [] => some (0, [])
  | c :: rest =>
    if c = 'e' || c = 'E' then
      let (negative, rest) := match rest with
        | '-' :: rest => (true, rest)
        | '+' :: rest => (false, rest)
        | rest => (false, rest)
      let (ds, rest) := spanPlaces rest
      if ds.isEmpty then none
      else some (if negative then -(digitsValue ds : Int) else digitsValue ds, rest)
    else some (0, c :: rest)

/-- A double that is written in digits, which infinity is not. -/
def ofDigits (sign : Sign) (x : Float) : Json :=
  if x.isInf then .unreadable else .float (signed sign.isMinus x)

/-- A number with a point or an exponent. -/
def decimal? (sign : Sign) (cs : List Char) : Option Json := do
  let (whole, rest) := spanPlaces cs
  let (fraction, rest) ← places? rest
  let (e, rest) ← power? rest
  if whole.isEmpty || hasIdleZero cs whole.length || !rest.isEmpty
      || !underscoresFit isDigit sign.isWritten cs then none
  else
    return ofDigits sign (floatOfDecimal (digitsValue (whole ++ fraction)) (e - fraction.length))

/-- An integer, as far as it is one. -/
def ofInteger (sign : Sign) (cs : List Char) : Json :=
  match natOfDigits? (withoutUnderscores cs) with
  | some n => .int (if sign.isMinus then -(n : Int) else n)
  | none => .unreadable

/-- A number in digits after its sign. -/
def number? (sign : Sign) (cs : List Char) : Option Json :=
  let (ds, rest) := spanDigits cs
  if rest.any fun c => c = '.' || c = 'e' || c = 'E' then decimal? sign cs
  else match rest with
    | [] =>
      if ds.isEmpty || hasIdleZero cs ds.length then none else some (ofInteger sign cs)
    | '_' :: _ =>
      if ds.head? = some '0' || !underscoresFit isHexDigit sign.isWritten cs then none
      else some (ofInteger sign cs)
    | _ => none

/-- A number or one of the words that stand for one, after its sign. -/
def unsigned? (sign : Sign) (cs : List Char) : Option Json :=
  match String.ofList cs with
  | "inf" => some (.float (signed sign.isMinus (1.0 / 0.0)))
  | "nan" => some (.float (signed sign.isMinus (0.0 / 0.0)))
  | _ => number? sign cs

/-- A value that is written as one word. -/
def word? (cs : List Char) : Option Json :=
  match cs with
  | '0' :: 'x' :: rest => radixInteger? 16 rest
  | '0' :: 'o' :: rest => radixInteger? 8 rest
  | '0' :: 'b' :: rest => radixInteger? 2 rest
  | '-' :: rest => unsigned? .minus rest
  | '+' :: rest => unsigned? .plus rest
  | _ =>
    match String.ofList cs with
    | "true" => some (.bool true)
    | "false" => some (.bool false)
    | _ => unsigned? .absent cs

end SeriesPipeline.Toml
