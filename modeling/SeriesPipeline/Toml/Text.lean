import SeriesPipeline.Json.Reader

/-!
# Strings and keys of TOML documents

Basic strings have escapes and literal strings have none. Either kind may run over several lines
between triple quotes; a line feed right after the opening ones does not count.
-/

namespace SeriesPipeline.Toml

/-- The rest of a text after something was read in front of it. -/
abbrev Rest := List Char

def isSpace (c : Char) : Bool := c = ' ' || c = '\t'

def skipSpace (cs : List Char) : Rest := cs.dropWhile isSpace

/-- Controls may not stand in a text, apart from the tab. -/
def isControl (c : Char) : Bool := (c.toNat < 32 && c ≠ '\t') || c.toNat = 127

/-- What follows an end of line. -/
def newline? : List Char → Option Rest
  | '\n' :: rest => some rest
  | '\r' :: '\n' :: rest => some rest
  | _ => none

def withoutNewline (cs : List Char) : Rest := (newline? cs).getD cs

def hexNumber? (ds : List Char) : Option Nat :=
  ds.foldlM (fun n d => (Json.hexValue? d).map (n * 16 + ·)) 0

def charOfHex? (ds : List Char) : Option Char := do
  let n ← hexNumber? ds
  if n.isValidChar then some (Char.ofNat n) else none

/-- The character of an escape, given what follows the backslash. -/
def escape? : List Char → Option (Char × Rest)
  | 'x' :: a :: b :: rest => (charOfHex? [a, b]).map (·, rest)
  | 'u' :: a :: b :: c :: d :: rest => (charOfHex? [a, b, c, d]).map (·, rest)
  | 'U' :: a :: b :: c :: d :: e :: f :: g :: h :: rest =>
    (charOfHex? [a, b, c, d, e, f, g, h]).map (·, rest)
  | 'b' :: rest => some (Char.ofNat 8, rest)
  | 't' :: rest => some ('\t', rest)
  | 'n' :: rest => some ('\n', rest)
  | 'f' :: rest => some (Char.ofNat 12, rest)
  | 'r' :: rest => some ('\r', rest)
  | 'e' :: rest => some (Char.ofNat 27, rest)
  | '"' :: rest => some ('"', rest)
  | '\\' :: rest => some ('\\', rest)
  | _ => none

/-- A basic string after its opening quote. The fuel is the number of characters. -/
def basic? : Nat → List Char → Option (List Char × Rest)
  | 0, _ => none
  | _, [] => none
  | _, '"' :: rest => some ([], rest)
  | fuel + 1, '\\' :: rest => do
    let (c, rest) ← escape? rest
    let (s, rest) ← basic? fuel rest
    return (c :: s, rest)
  | fuel + 1, c :: rest => do
    if isControl c then none
    else
      let (s, rest) ← basic? fuel rest
      return (c :: s, rest)

def literal? : List Char → Option (List Char × Rest)
  | [] => none
  | '\'' :: rest => some ([], rest)
  | c :: rest => do
    if isControl c then none
    else
      let (s, rest) ← literal? rest
      return (c :: s, rest)

/-- The end of a string between triple quotes: up to two quotes in front of the closing three belong
to the string. -/
def closing? (quote : Char) (cs : List Char) : Option (List Char × Rest) :=
  let quotes := cs.takeWhile (· = quote)
  if quotes.length < 3 then none
  else
    let inside := min (quotes.length - 3) 2
    some (List.replicate inside quote, cs.drop (inside + 3))

/-- Skips blanks and ends of lines. -/
def skipBlankLines : List Char → Rest
  | [] => []
  | '\r' :: '\n' :: rest => skipBlankLines rest
  | c :: rest => if isSpace c || c = '\n' then skipBlankLines rest else c :: rest

/-- What follows a backslash at the end of a line: blanks and line ends are skipped. -/
def joinedLine? (cs : List Char) : Option Rest := (newline? (skipSpace cs)).map skipBlankLines

/-- Whether a character may stand between triple quotes in front of `rest`. -/
def isLineChar (c : Char) (rest : List Char) : Bool :=
  !isControl c || c = '\n' || (c = '\r' && rest.head? = some '\n')

/-- A basic string after its opening triple quotes. The fuel is the number of characters. -/
def longBasic? : Nat → List Char → Option (List Char × Rest)
  | 0, _ => none
  | _, [] => none
  | fuel + 1, '\\' :: rest =>
    match joinedLine? rest with
    | some rest => longBasic? fuel rest
    | none => do
      let (c, rest) ← escape? rest
      let (s, rest) ← longBasic? fuel rest
      return (c :: s, rest)
  | fuel + 1, c :: rest =>
    match closing? '"' (c :: rest) with
    | some closed => some closed
    | none => do
      if isLineChar c rest then
        let (s, rest) ← longBasic? fuel rest
        return (c :: s, rest)
      else none

def longLiteral? : List Char → Option (List Char × Rest)
  | [] => none
  | c :: rest =>
    match closing? '\'' (c :: rest) with
    | some closed => some closed
    | none => do
      if isLineChar c rest then
        let (s, rest) ← longLiteral? rest
        return (c :: s, rest)
      else none

/-- A string of one line. -/
def shortString? : List Char → Option (String × Rest)
  | '"' :: rest => (basic? (rest.length + 1) rest).map fun (s, rest) => (String.ofList s, rest)
  | '\'' :: rest => (literal? rest).map fun (s, rest) => (String.ofList s, rest)
  | _ => none

def string? (cs : List Char) : Option (String × Rest) :=
  match cs with
  | '"' :: '"' :: '"' :: rest =>
    (longBasic? (rest.length + 1) (withoutNewline rest)).map fun (s, rest) =>
      (String.ofList s, rest)
  | '\'' :: '\'' :: '\'' :: rest =>
    (longLiteral? (withoutNewline rest)).map fun (s, rest) => (String.ofList s, rest)
  | _ => shortString? cs

def isBareChar (c : Char) : Bool := c.isAlphanum || c = '_' || c = '-'

/-- One part of a key: a bare word or a string of one line. -/
def keyPart? (cs : List Char) : Option (String × Rest) :=
  match shortString? cs with
  | some part => some part
  | none =>
    let (word, rest) := cs.span isBareChar
    if word.isEmpty then none else some (String.ofList word, rest)

/-- The parts of a key, with points between them and blanks around. The fuel is the number of
characters. -/
def key? : Nat → List Char → Option (List String × Rest)
  | 0, _ => none
  | fuel + 1, cs => do
    let (part, rest) ← keyPart? (skipSpace cs)
    match skipSpace rest with
    | '.' :: rest =>
      let (parts, rest) ← key? fuel rest
      return (part :: parts, rest)
    | rest => return ([part], rest)

/-- What follows a comment, or the text itself if there is none. -/
def skipComment? (cs : List Char) : Option Rest :=
  match cs with
  | '#' :: rest =>
    let (comment, rest) := rest.span fun c => c ≠ '\n' && c ≠ '\r'
    if comment.any isControl then none else some rest
  | cs => some cs

/-- What follows the end of a statement: blanks, a comment, and the end of line or text. -/
def lineEnd? (cs : List Char) : Option Rest := do
  match ← skipComment? (skipSpace cs) with
  | [] => some []
  | rest => newline? rest

/-- Skips blanks, comments and line ends. The fuel is the number of characters. -/
def skipLines? : Nat → List Char → Option Rest
  | 0, cs => some cs
  | fuel + 1, cs => do
    let rest ← skipComment? (skipSpace cs)
    match newline? rest with
    | some rest => skipLines? fuel rest
    | none => some rest

end SeriesPipeline.Toml
