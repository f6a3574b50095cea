import SeriesPipeline.Text.Invisible

/-!
# Quoted text in messages

A text in double quotes, in which quotes, backslashes and line controls are escaped by a backslash
and every other invisible character is written by its code point.
-/

namespace SeriesPipeline.Text

def hexDigits (n : Nat) : List Char := Nat.toDigits 16 n

def quotedChar (c : Char) : List Char :=
  match c with
  | '"' => ['\\', '"']
  | '\\' => ['\\', '\\']
  | '\n' => ['\\', 'n']
  | '\r' => ['\\', 'r']
  | '\t' => ['\\', 't']
  | c =>
    if c.toNat = 0 then ['\\', '0']
    else if isInvisible c then "\\u\x7b".toList ++ hexDigits c.toNat ++ "\x7d".toList
    else [c]

def quoted (s : String) : String :=
  String.ofList ('"' :: s.toList.flatMap quotedChar ++ ['"'])

/-- Quoted texts between brackets, separated by a comma and a space. -/
def quotedList (l : List String) : String :=
  "[" ++ ", ".intercalate (l.map quoted) ++ "]"

end SeriesPipeline.Text
