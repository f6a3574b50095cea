import SeriesPipeline.Toml.DateTime
import SeriesPipeline.Toml.Number
import SeriesPipeline.Toml.Table
import SeriesPipeline.Toml.Text

/-!
# Reading TOML

A document is read as the JSON object with the same fields. Brackets and braces may be nested, and
keys may be divided, as deep as `depthLimit`.
-/

namespace SeriesPipeline.Toml

/-- Whether a character goes on with a word. Quotes do, so that a word is no text. -/
def isWordChar (c : Char) : Bool :=
  !(isSpace c || c = '\n' || c = '\r' || c = ',' || c = '#' || c = '='
    || c = '[' || c = ']' || c = '\x7b' || c = '\x7d')

/-- How deep values may be nested and how many parts a key may have. -/
def depthLimit : Nat := 80

/-- Splits a key into the path to its table and its last part. -/
def splitKey? (parts : List String) : Option (List String × String) :=
  if depthLimit < parts.length then none else parts.getLast?.map (parts.dropLast, ·)

/-- The next word, or the next two if there is one space between them. -/
def spanWords (cs : List Char) : List Char × Rest :=
  match cs.span isWordChar with
  | (word, ' ' :: rest) =>
    match rest.span isWordChar with
    | ([], _) => (word, ' ' :: rest)
    | (next, rest) => (word ++ ' ' :: next, rest)
  | words => words

/-- A value without quotes or brackets. Only a date and a time may have a space between them. -/
def plain? (cs : List Char) : Option (Json × Rest) :=
  let (words, rest) := spanWords cs
  match DateTime.ofChars? words with
  | some t => some (t.toJson, rest)
  | none =>
    let (word, rest) := cs.span isWordChar
    (word? word).map (·, rest)

mutual

/-- A value and the rest, with no more than `depth` brackets and braces inside each other. The fuel
bounds the depth of calls; each of them starts at another character or in another role, so three
times the length of the text is enough. -/
def value? : Nat → Nat → List Char → Option (Json × Rest)
  | 0, _, _ => none
  | fuel + 1, depth, cs =>
    match cs with
    | '[' :: rest =>
      match depth with
      | 0 => none
      | depth + 1 => (items? fuel depth rest).map fun (items, rest) => (.array items, rest)
    | '\x7b' :: rest =>
      match depth with
      | 0 => none
      | depth + 1 =>
        (fields? fuel depth [] rest).map fun (fields, rest) => (.object (fieldsToJson fields), rest)
    | c :: _ =>
      if c = '"' || c = '\'' then (string? cs).map fun (s, rest) => (.text s, rest)
      else plain? cs
    | [] => none

/-- Items up to the closing bracket. A comma may follow the last one. -/
def items? : Nat → Nat → List Char → Option (List Json × Rest)
  | 0, _, _ => none
  | fuel + 1, depth, cs => do
    match ← skipLines? cs.length cs with
    | ']' :: rest => return ([], rest)
    | cs =>
      let (j, rest) ← value? fuel depth cs
      match ← skipLines? rest.length rest with
      | ',' :: rest =>
        let (items, rest) ← items? fuel depth rest
        return (j :: items, rest)
      | ']' :: rest => return ([j], rest)
      | _ => none

/-- Fields up to the closing brace, added to those read before. A comma may follow the last one.
Lines may end on either side of a key, but not inside it. -/
def fields? : Nat → Nat → Fields → List Char → Option (Fields × Rest)
  | 0, _, _, _ => none
  | fuel + 1, depth, fields, cs => do
    match ← skipLines? cs.length cs with
    | '\x7d' :: rest => return (fields, rest)
    | cs =>
      let (parts, rest) ← key? (cs.length + 1) cs
      let (path, key) ← splitKey? parts
      match ← skipLines? rest.length rest with
      | '=' :: rest =>
        let (j, rest) ← value? fuel depth (← skipLines? rest.length rest)
        let fields ← assign path key j fields
        match ← skipLines? rest.length rest with
        | ',' :: rest => fields? fuel depth fields rest
        | '\x7d' :: rest => return (fields, rest)
        | _ => none
      | _ => none

end

/-- The document so far, and the header that the next keys stand below. -/
structure Reading where
  root : Fields
  header : List String

def keyOf? (cs : List Char) : Option (List String × String × Rest) := do
  let (parts, rest) ← key? (cs.length + 1) cs
  let (path, key) ← splitKey? parts
  return (path, key, rest)

/-- One statement with the end of its line. -/
def statement? (r : Reading) (cs : List Char) : Option (Reading × Rest) :=
  match cs with
  | '[' :: '[' :: rest => do
    let (path, key, rest) ← keyOf? rest
    match rest with
    | ']' :: ']' :: rest => return (⟨← addTable path key r.root, path ++ [key]⟩, ← lineEnd? rest)
    | _ => none
  | '[' :: rest => do
    let (path, key, rest) ← keyOf? rest
    match rest with
    | ']' :: rest => return (⟨← openTable path key r.root, path ++ [key]⟩, ← lineEnd? rest)
    | _ => none
  | cs => do
    let (path, key, rest) ← keyOf? cs
    match rest with
    | '=' :: rest =>
      let (j, rest) ← value? (3 * rest.length + 1) depthLimit (skipSpace rest)
      return ({ r with root := ← assignBelow r.header path key j r.root }, ← lineEnd? rest)
    | _ => none

/-- Statements up to the end of the text. The fuel is the number of characters. -/
def statements? : Nat → Reading → List Char → Option Fields
  | 0, r, cs => if cs.isEmpty then some r.root else none
  | fuel + 1, r, cs => do
    match ← skipLines? cs.length cs with
    | [] => some r.root
    | cs =>
      let (r, rest) ← statement? r cs
      statements? fuel r rest

/-- A byte order mark in front of a text does not count. -/
def withoutMark : List Char → List Char
  | '\ufeff' :: rest => rest
  | cs => cs

/-- The fields of a document. -/
def ofText? (s : String) : Option (List (String × Json)) :=
  let cs := withoutMark s.toList
  (statements? (cs.length + 1) ⟨[], []⟩ cs).map fieldsToJson

end SeriesPipeline.Toml
