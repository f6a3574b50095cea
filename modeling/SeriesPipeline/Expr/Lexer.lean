import SeriesPipeline.Expr.Syntax
import SeriesPipeline.Text.Blank
import SeriesPipeline.Text.Letter
import SeriesPipeline.Text.Numeral
import SeriesPipeline.Word

/-!
# Tokens of an expression

Single quotes enclose texts and double quotes identifiers; a backslash inside stands for the
character after it. Words are keywords in any case, or else identifiers, which may hold points.
-/

namespace SeriesPipeline.Token

open Text

def utf8Length : List Char → Nat
  | [] => 0
  | c :: rest => c.utf8Size + utf8Length rest

/-- The text up to the closing quote, and the rest. -/
def quotedBody (quote : Char) : List Char → Option (List Char × List Char)
  | [] => none
  | '\\' :: c :: rest => (quotedBody quote rest).map fun (body, rest) => (c :: body, rest)
  | c :: rest =>
    if c = quote then some ([], rest)
    else (quotedBody quote rest).map fun (body, rest) => (c :: body, rest)

theorem length_of_quotedBody {quote : Char} {cs body rest : List Char}
    (h : quotedBody quote cs = some (body, rest)) : rest.length < cs.length := by
  fun_induction quotedBody quote cs generalizing body with
  | case1 => simp at h
  | case2 c tail ih =>
    obtain ⟨⟨t, r⟩, ht, he⟩ := Option.map_eq_some_iff.1 h
    cases he
    have := ih ht
    simp only [List.length_cons]
    omega
  | case3 tail => simp_all
  | case4 c tail _ _ ih =>
    obtain ⟨⟨t, r⟩, ht, he⟩ := Option.map_eq_some_iff.1 h
    cases he
    have := ih ht
    simp only [List.length_cons]
    omega

def isWordStart (c : Char) : Bool := isAlphabetic c || c = '_'

def isWordChar (c : Char) : Bool := isAlphanumeric c || c = '_' || c = '.'

def isNumberChar (c : Char) : Bool := isDigit c || c = '.'

def ofWord (word : List Char) : Token :=
  match String.ofList (word.map Char.toUpper) with
  | "AND" => .op .and
  | "OR" => .op .or
  | "NOT" => .not
  | "TRUE" => .bool true
  | "FALSE" => .bool false
  | _ => .ident (String.ofList word)

/-- Digits are an integer of 64 bits; with a point among them they are a double. -/
def ofNumber? (cs : List Char) : Option Token :=
  if cs.contains '.' then (unsignedFloat? cs).map .float
  else (natOfDigits? cs).bind fun n => (signedWord? n).map .int

/-- The token that starts with `c`, and what follows it. -/
def next (c : Char) (rest : List Char) :
    Except SyntaxFault (Token × { r : List Char // r.length ≤ rest.length }) :=
  let one (t : Token) : Except SyntaxFault (Token × { r : List Char // r.length ≤ rest.length }) :=
    .ok (t, ⟨rest, Nat.le_refl _⟩)
  let two (t : Token) : Except SyntaxFault (Token × { r : List Char // r.length ≤ rest.length }) :=
    .ok (t, ⟨rest.drop 1, by simp⟩)
  let peek := rest.head?
  match c with
  | '(' => one .openParen
  | ')' => one .closeParen
  | '+' => one (.op .add)
  | '-' => one .minus
  | '*' => one (.op .mul)
  | '/' => one (.op .div)
  | '%' => one (.op .mod)
  | '<' =>
    if peek = some '=' then two (.op .le)
    else if peek = some '>' then two (.op .ne)
    else one (.op .lt)
  | '>' => if peek = some '=' then two (.op .ge) else one (.op .gt)
  | '=' => if peek = some '=' then two (.op .eq) else one (.op .eq)
  | '!' => if peek = some '=' then two (.op .ne) else one .not
  | '&' => if peek = some '&' then two (.op .and) else .error (.single c)
  | '|' => if peek = some '|' then two (.op .or) else .error (.single c)
  | '\'' =>
    match h : quotedBody c rest with
    | some (s, r) => .ok (.text (String.ofList s), ⟨r, Nat.le_of_lt (length_of_quotedBody h)⟩)
    | none => .error .unterminated
  | '"' =>
    match h : quotedBody c rest with
    | some (s, r) => .ok (.ident (String.ofList s), ⟨r, Nat.le_of_lt (length_of_quotedBody h)⟩)
    | none => .error .unterminated
  | c =>
    if isDigit c then
      let text := c :: rest.takeWhile isNumberChar
      match ofNumber? text with
      | some t => .ok (t, ⟨rest.dropWhile isNumberChar, (List.dropWhile_sublist _).length_le⟩)
      | none => .error (.number (String.ofList text))
    else if isWordStart c then
      .ok (ofWord (c :: rest.takeWhile isWordChar),
        ⟨rest.dropWhile isWordChar, (List.dropWhile_sublist _).length_le⟩)
    else .error (.character c)

/-- The tokens of a text and their offsets; `total` is the length of the whole text in bytes. -/
def scanFrom (total : Nat) (cs : List Char) : Except ExprFault (List (Nat × Token)) :=
  match cs with
  | [] => .ok []
  | c :: rest =>
    if isBlank c then scanFrom total rest
    else
      let offset := total - utf8Length (c :: rest)
      match next c rest with
      | .error cause => .error (.parse offset cause)
      | .ok (t, r) => (scanFrom total r.1).map ((offset, t) :: ·)
termination_by cs.length
decreasing_by
  all_goals simp only [List.length_cons]
  · omega
  · have := r.2; omega

def scan (cs : List Char) : Except ExprFault (List (Nat × Token)) := scanFrom (utf8Length cs) cs

end SeriesPipeline.Token
