import SeriesPipeline.Json.Basic
import SeriesPipeline.Text.Numeral
import SeriesPipeline.Word

/-!
# Reading JSON

Integers below `2 ^ 64`, and negative ones down to `-2 ^ 63`, are read exactly; every other number
is a double computed from its leading digits and a power of ten. Numbers too large for a double and
unpaired surrogates are well formed but have no value.
-/

namespace SeriesPipeline.Json

open Text

def isSpace (c : Char) : Bool := c = ' ' || c = '\n' || c = '\t' || c = '\r'

def skipSpace (cs : List Char) : List Char := cs.dropWhile isSpace

def hexValue? (c : Char) : Option Nat :=
  if '0' ≤ c && c ≤ '9' then some (c.toNat - 48)
  else if 'a' ≤ c && c ≤ 'f' then some (c.toNat - 87)
  else if 'A' ≤ c && c ≤ 'F' then some (c.toNat - 55)
  else none

def unit16? (a b c d : Char) : Option Nat := do
  let a ← hexValue? a
  let b ← hexValue? b
  let c ← hexValue? c
  let d ← hexValue? d
  return ((a * 16 + b) * 16 + c) * 16 + d

def isHighSurrogate (n : Nat) : Bool := 0xD800 ≤ n && n < 0xDC00

def isLowSurrogate (n : Nat) : Bool := 0xDC00 ≤ n && n < 0xE000

def unescaped? (c : Char) : Option Char :=
  match c with
  | '"' => some '"'
  | '\\' => some '\\'
  | '/' => some '/'
  | 'b' => some (Char.ofNat 8)
  | 'f' => some (Char.ofNat 12)
  | 'n' => some '\n'
  | 'r' => some '\r'
  | 't' => some '\t'
  | _ => none

/-- The text up to the closing quote and the rest. `high` is a high surrogate still without its
partner; `whole` is false once a surrogate has been left alone. -/
def stringBody (high : Option Nat) (whole : Bool) (read : List Char) :
    List Char → Option (Bool × List Char × List Char)
  | [] => none
  | '"' :: rest => some (whole && high.isNone, read.reverse, rest)
  | '\\' :: 'u' :: a :: b :: c :: d :: rest => do
    let n ← unit16? a b c d
    if isHighSurrogate n then stringBody (some n) (whole && high.isNone) read rest
    else if isLowSurrogate n then
      match high with
      | some h =>
        stringBody none whole
          (Char.ofNat (0x10000 + (h - 0xD800) * 0x400 + (n - 0xDC00)) :: read) rest
      | none => stringBody none false read rest
    else stringBody none (whole && high.isNone) (Char.ofNat n :: read) rest
  | '\\' :: c :: rest => do
    let c ← unescaped? c
    stringBody none (whole && high.isNone) (c :: read) rest
  | c :: rest =>
    if c.toNat < 32 || c = '\\' then none
    else stringBody none (whole && high.isNone) (c :: read) rest

/-- Leading digits whose number is below `2 ^ 64`, that number, and how many digits are left over
and how many were taken. -/
def leadingDigits (n : Nat) (taken : Nat) : List Char → Nat × Nat × Nat
  | [] => (n, taken, 0)
  | c :: rest =>
    let next := n * 10 + digitValue c
    if next < UInt64.size then leadingDigits next (taken + 1) rest
    else (n, taken, rest.length + 1)

/-- `x` times `10 ^ e` by at most one multiplication or by divisions in steps of `10 ^ 308`; none
when the product is too large. -/
def scaled? (fuel : Nat) (x : Float) (e : Int) : Option Float :=
  if e.natAbs ≤ 308 then
    let power := Float.ofScientific 1 false e.natAbs
    if 0 ≤ e then
      let y := x * power
      if y.isInf then none else some y
    else some (x / power)
  else if x == 0.0 then some x
  else if 0 ≤ e then none
  else match fuel with
    | 0 => some 0.0
    | fuel + 1 => scaled? fuel (x / 1e308) (e + 308)

def float? (negative : Bool) (significand : Nat) (e : Int) : Option Float :=
  (scaled? 4 (Float.ofNat significand) e).map (signed negative)

/-- The exponent after its letter: a sign and the digits. -/
def exponentDigits? (cs : List Char) : Option (Bool × Nat × List Char) :=
  let (negative, cs) :=
    match cs with
    | '-' :: rest => (true, rest)
    | '+' :: rest => (false, rest)
    | rest => (false, rest)
  let (ds, rest) := spanDigits cs
  if ds.isEmpty then none else some (negative, digitsValue ds, rest)

/-- Beyond this exponent a number is zero or too large, whatever its digits are. -/
def longestExponent : Nat := 2147483647

/-- A double from its digits before and after the point and its exponent. -/
def floatOfParts (negative : Bool) (whole fraction : List Char) (expNegative : Bool) (e : Nat) :
    Option Float :=
  let (n, _, dropped) := leadingDigits 0 0 whole
  let (n, taken, _) := leadingDigits n 0 fraction
  if longestExponent < e then
    if n ≠ 0 && !expNegative then none else some (signed negative 0.0)
  else float? negative n (dropped - taken + if expNegative then -(e : Int) else e)

def ofFloat? : Option Float → Json
  | some x => .float x
  | none => .unreadable

def integer (negative : Bool) (whole : List Char) : Json :=
  let n := digitsValue whole
  if negative then
    if n = 0 then .float (-0.0)
    else if (signedWord? (-n)).isSome then .int (-n)
    else if n < UInt64.size then .float (-Float.ofNat n)
    else ofFloat? (floatOfParts true whole [] false 0)
  else if n < UInt64.size then .int n
  else ofFloat? (floatOfParts false whole [] false 0)

/-- A number after its sign. -/
def number? (negative : Bool) (cs : List Char) : Option (Json × List Char) := do
  let (whole, rest) := spanDigits cs
  if whole.isEmpty || (whole.head? = some '0' && 1 < whole.length) then none
  else
    let (fraction, rest, pointed) ←
      match rest with
      | '.' :: rest =>
        let (ds, rest) := spanDigits rest
        if ds.isEmpty then none else some (ds, rest, true)
      | rest => some ([], rest, false)
    match rest with
    | c :: tail =>
      if c = 'e' || c = 'E' then
        let (expNegative, e, rest) ← exponentDigits? tail
        some (ofFloat? (floatOfParts negative whole fraction expNegative e), rest)
      else if pointed then
        some (ofFloat? (floatOfParts negative whole fraction false 0), rest)
      else some (integer negative whole, rest)
    | [] =>
      if pointed then some (ofFloat? (floatOfParts negative whole fraction false 0), [])
      else some (integer negative whole, [])

def word? (word : String) (j : Json) (cs : List Char) : Option (Json × List Char) :=
  if word.toList.isPrefixOf cs then some (j, cs.drop word.length) else none

mutual

/-- A value and the rest. The fuel bounds the depth of calls. Each character opens at most two, so
twice the length of the text is enough. -/
def value? : Nat → List Char → Option (Json × List Char)
  | 0, _ => none
  | fuel + 1, cs =>
    match skipSpace cs with
    | [] => none
    | '"' :: rest =>
      (stringBody none true [] rest).map fun (whole, s, rest) =>
        (if whole then .text (String.ofList s) else .unreadable, rest)
    | '[' :: rest =>
      match skipSpace rest with
      | ']' :: rest => some (.array [], rest)
      | rest => (items? fuel rest).map fun (items, rest) => (.array items, rest)
    | '\x7b' :: rest =>
      match skipSpace rest with
      | '\x7d' :: rest => some (.object [], rest)
      | rest => (fields? fuel rest).map fun (whole, fields, rest) =>
          (if whole then .object fields else .unreadable, rest)
    | '-' :: rest => number? true rest
    | 'n' :: rest => word? "ull" .null rest
    | 't' :: rest => word? "rue" (.bool true) rest
    | 'f' :: rest => word? "alse" (.bool false) rest
    | rest => number? false rest

/-- Items up to the closing bracket. -/
def items? : Nat → List Char → Option (List Json × List Char)
  | 0, _ => none
  | fuel + 1, cs => do
    let (j, rest) ← value? fuel cs
    match skipSpace rest with
    | ',' :: rest =>
      let (items, rest) ← items? fuel rest
      some (j :: items, rest)
    | ']' :: rest => some ([j], rest)
    | _ => none

/-- Fields up to the closing brace, and whether every key is a text. -/
def fields? : Nat → List Char → Option (Bool × List (String × Json) × List Char)
  | 0, _ => none
  | fuel + 1, cs => do
    match skipSpace cs with
    | '"' :: rest =>
      let (whole, key, rest) ← stringBody none true [] rest
      match skipSpace rest with
      | ':' :: rest =>
        let (j, rest) ← value? fuel rest
        match skipSpace rest with
        | ',' :: rest =>
          let (others, fields, rest) ← fields? fuel rest
          some (whole && others, (String.ofList key, j) :: fields, rest)
        | '\x7d' :: rest => some (whole, [(String.ofList key, j)], rest)
        | _ => none
      | _ => none
    | _ => none

end

/-- A whole text as one value. -/
def ofChars? (cs : List Char) : Option Json := do
  let (j, rest) ← value? (2 * cs.length + 2) cs
  if (skipSpace rest).isEmpty then some j else none

def ofText? (s : String) : Option Json := ofChars? s.toList

end SeriesPipeline.Json
