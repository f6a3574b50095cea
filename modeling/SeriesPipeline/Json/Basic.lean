import SeriesPipeline.Decimal.Layout

/-!
# JSON values and their text

Text is compact. Fields keep their order. Quotes, backslashes and controls are escaped, all else is
written as it is.
-/

namespace SeriesPipeline

inductive Json where
  | null
  | bool (b : Bool)
  | int (n : Int)
  | float (x : Float)
  | text (s : String)
  | array (items : List Json)
  | object (fields : List (String × Json))
  /-- Well-formed text that stands for no value: a number out of range, or half of a surrogate
  pair. A reader may skip it and do nothing else with it. -/
  | unreadable

namespace Json

/-- Numbers in documents: positional between `0.00001` and `10 ^ 16`, always with a point or an
exponent; what is no number is null. -/
def numberLayout : Decimal.Layout := ⟨some (-5, 15), true, true, .even, "null", "null"⟩

def floatText (x : Float) : List Char :=
  if x.isFinite then (numberLayout.text x).toList else "null".toList

def hexDigit (n : Nat) : Char := Nat.digitChar n

def escapedChar (c : Char) : List Char :=
  match c with
  | '"' => ['\\', '"']
  | '\\' => ['\\', '\\']
  | '\n' => ['\\', 'n']
  | '\r' => ['\\', 'r']
  | '\t' => ['\\', 't']
  | c =>
    if c.toNat = 8 then ['\\', 'b']
    else if c.toNat = 12 then ['\\', 'f']
    else if c.toNat < 32 then
      ['\\', 'u', '0', '0', hexDigit (c.toNat / 16), hexDigit (c.toNat % 16)]
    else [c]

def stringText (s : String) : List Char := '"' :: s.toList.flatMap escapedChar ++ ['"']

def intText (n : Int) : List Char :=
  if n < 0 then '-' :: Nat.toDigits 10 n.natAbs else Nat.toDigits 10 n.natAbs

mutual

def chars : Json → List Char
  | .null => "null".toList
  | .bool b => (if b then "true" else "false").toList
  | .int n => intText n
  | .float x => floatText x
  | .text s => stringText s
  | .array items => '[' :: itemChars items ++ [']']
  | .object fields => '\x7b' :: fieldChars fields ++ ['\x7d']
  | .unreadable => "null".toList

def itemChars : List Json → List Char
  | [] => []
  | [j] => chars j
  | j :: rest => chars j ++ ',' :: itemChars rest

def fieldChars : List (String × Json) → List Char
  | [] => []
  | [(k, j)] => stringText k ++ ':' :: chars j
  | (k, j) :: rest => stringText k ++ ':' :: chars j ++ ',' :: fieldChars rest

end

def render (j : Json) : String := String.ofList j.chars

def field? (key : String) : List (String × Json) → Option Json
  | [] => none
  | (k, j) :: rest => if k = key then some j else field? key rest

end Json

end SeriesPipeline
