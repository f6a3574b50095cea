import SeriesPipeline.Expr.Parser
import SeriesPipeline.Proofs.Text.Blank
import SeriesPipeline.Proofs.Text.Digits

/-!
# Written expressions

An expression is written with as few parentheses as the ranks of its operators allow. Its text is
scanned as the tokens it was written with.
-/

namespace SeriesPipeline

open Text

/-- Values with a literal of their own. -/
def Value.HasLiteral : Value → Prop
  | .int n => 0 ≤ n.toInt
  | .bool _ | .text _ => True
  | .null | .float _ => False

namespace Expr

/-- All literals of the expression can be written. -/
def Writable : Expr → Prop
  | .literal v => v.HasLiteral
  | .ident _ => True
  | .unary _ e => e.Writable
  | .binary _ l r => l.Writable ∧ r.Writable

def isBinary : Expr → Bool
  | .binary .. => true
  | _ => false

/-- The rank of the operator between the two sides of an expression, or above all ranks. -/
def rank : Expr → Nat
  | .binary op _ _ => op.rank
  | _ => BinaryOp.mul.rank + 1

/-! ## Text and tokens -/

def escapedIn (quote c : Char) : List Char := if c = '\\' ∨ c = quote then ['\\', c] else [c]

/-- A text in quotes, with a backslash before each backslash and each quote inside. -/
def quotedChars (quote : Char) (s : String) : List Char :=
  quote :: (s.toList.flatMap (escapedIn quote) ++ [quote])

/-- Between `left` and `right` where that is needed. -/
def enclosed {α : Type} (left right : α) (needed : Bool) (inside : List α) : List α :=
  if needed then left :: (inside ++ [right]) else inside

def literalChars : Value → List Char
  | .int n => Nat.toDigits 10 n.toInt.toNat
  | .bool b => if b then ['t', 'r', 'u', 'e'] else ['f', 'a', 'l', 's', 'e']
  | .text s => quotedChars '\'' s
  | .null | .float _ => []

def unaryChars : UnaryOp → List Char
  | .neg => ['-']
  | .not => ['N', 'O', 'T', ' ']

/-- A unary operator and its operand stand in parentheses, and so does an operand of it that is
binary; a side of a binary operator does if it would be taken apart otherwise. -/
def chars : Expr → List Char
  | .literal v => literalChars v
  | .ident name => quotedChars '"' name
  | .unary op e =>
    '(' :: (unaryChars op ++ (enclosed '(' ')' e.isBinary e.chars ++ [')']))
  | .binary op l r =>
    enclosed '(' ')' (l.rank < op.rank) l.chars ++
      ' ' :: (op.symbol.toList ++ ' ' :: enclosed '(' ')' (r.rank ≤ op.rank) r.chars)

def text (e : Expr) : String := String.ofList e.chars

def literalToken : Value → List Token
  | .int n => [.int n]
  | .bool b => [.bool b]
  | .text s => [.text s]
  | .null | .float _ => []

def unaryToken : UnaryOp → Token
  | .neg => .minus
  | .not => .not

def binaryToken : BinaryOp → Token
  | .sub => .minus
  | op => .op op

def tokens : Expr → List Token
  | .literal v => literalToken v
  | .ident name => [.ident name]
  | .unary op e =>
    .openParen :: unaryToken op ::
      (enclosed .openParen .closeParen e.isBinary e.tokens ++ [.closeParen])
  | .binary op l r =>
    enclosed .openParen .closeParen (l.rank < op.rank) l.tokens ++
      binaryToken op :: enclosed .openParen .closeParen (r.rank ≤ op.rank) r.tokens

end Expr

namespace Token

/-- The text is scanned as these tokens, wherever they are found to stand. -/
def Scans (total : Nat) (cs : List Char) (ts : List Token) : Prop :=
  ∃ placed, scanFrom total cs = .ok placed ∧ placed.map Prod.snd = ts

/-- A word or a number does not go on with the text. -/
def EndsWord (rest : List Char) : Prop := ∀ c ∈ rest.head?, c = ' ' ∨ c = ')'

variable {total : Nat} {c quote : Char} {cs rest : List Char} {ts : List Token} {t : Token}

theorem scans_nil : Scans total [] [] := ⟨[], by rw [scanFrom.eq_def], rfl⟩

theorem Scans.blank (h : Scans total rest ts) : Scans total (' ' :: rest) ts := by
  obtain ⟨placed, hplaced, hts⟩ := h
  refine ⟨placed, ?_, hts⟩
  rw [scanFrom.eq_def]
  exact (if_pos (by decide)).trans hplaced

theorem Scans.token {r : { r : List Char // r.length ≤ rest.length }} (hblank : isBlank c = false)
    (hnext : next c rest = .ok (t, r)) (h : Scans total r.1 ts) :
    Scans total (c :: rest) (t :: ts) := by
  obtain ⟨placed, hplaced, hts⟩ := h
  refine ⟨(total - utf8Length (c :: rest), t) :: placed, ?_, congrArg (t :: ·) hts⟩
  rw [scanFrom.eq_def]
  simp only [hblank, hnext, hplaced]
  rfl

theorem Scans.openParen (h : Scans total rest ts) :
    Scans total ('(' :: rest) (.openParen :: ts) :=
  .token (by decide) rfl h

theorem Scans.closeParen (h : Scans total rest ts) :
    Scans total (')' :: rest) (.closeParen :: ts) :=
  .token (by decide) rfl h

/-! ## Quoted texts -/

/-- A text is read back from its escaped form. -/
theorem quotedBody_escaped (hquote : quote ≠ '\\') (cs rest : List Char) :
    quotedBody quote (cs.flatMap (Expr.escapedIn quote) ++ quote :: rest) = some (cs, rest) := by
  induction cs with
  | nil =>
    rw [List.flatMap_nil, List.nil_append, quotedBody, if_pos rfl]
    rintro _ _ rfl
    exact absurd rfl hquote
  | cons c cs ih =>
    rw [List.flatMap_cons, List.append_assoc, Expr.escapedIn]
    split
    · simp [quotedBody, ih]
    · rename_i hplain
      obtain ⟨hbackslash, hc⟩ := not_or.1 hplain
      rw [List.singleton_append, quotedBody, if_neg hc, ih]
      · rfl
      · rintro _ _ rfl
        exact absurd rfl hbackslash

theorem next_single_quote {body : List Char} (h : quotedBody '\'' cs = some (body, rest)) :
    next '\'' cs =
      .ok (.text (String.ofList body), ⟨rest, Nat.le_of_lt (length_of_quotedBody h)⟩) := by
  simp only [next]
  split
  · rename_i heq
    cases h.symm.trans heq
    rfl
  · rename_i heq
    cases h.symm.trans heq

theorem next_double_quote {body : List Char} (h : quotedBody '"' cs = some (body, rest)) :
    next '"' cs =
      .ok (.ident (String.ofList body), ⟨rest, Nat.le_of_lt (length_of_quotedBody h)⟩) := by
  simp only [next]
  split
  · rename_i heq
    cases h.symm.trans heq
    rfl
  · rename_i heq
    cases h.symm.trans heq

theorem Scans.text (s : String) (h : Scans total rest ts) :
    Scans total (Expr.quotedChars '\'' s ++ rest) (.text s :: ts) := by
  have hnext := next_single_quote (quotedBody_escaped (by decide) s.toList rest)
  rw [String.ofList_toList] at hnext
  rw [Expr.quotedChars, List.cons_append, List.append_assoc, List.singleton_append]
  exact .token (by decide) hnext h

theorem Scans.ident (s : String) (h : Scans total rest ts) :
    Scans total (Expr.quotedChars '"' s ++ rest) (.ident s :: ts) := by
  have hnext := next_double_quote (quotedBody_escaped (by decide) s.toList rest)
  rw [String.ofList_toList] at hnext
  rw [Expr.quotedChars, List.cons_append, List.append_assoc, List.singleton_append]
  exact .token (by decide) hnext h

/-! ## Words and numbers -/

theorem takeWhile_word {p : Char → Bool} {word : List Char} (hword : ∀ c ∈ word, p c = true)
    (hspace : p ' ' = false) (hparen : p ')' = false) (hrest : EndsWord rest) :
    (word ++ rest).takeWhile p = word ∧ (word ++ rest).dropWhile p = rest := by
  have hhead : ∀ c ∈ rest.head?, p c = false := by
    intro c hc
    rcases hrest c hc with rfl | rfl
    · exact hspace
    · exact hparen
  rw [List.takeWhile_append_of_pos hword, List.dropWhile_append_of_pos hword]
  cases rest with
  | nil => simp
  | cons c rest =>
    have hc : ¬ p c = true := by simp [hhead c rfl]
    rw [List.takeWhile_cons_of_neg hc, List.dropWhile_cons_of_neg hc, List.append_nil]
    exact ⟨rfl, rfl⟩

theorem next_digit (h : isDigit c = true) (rest : List Char) :
    next c rest =
      match ofNumber? (c :: rest.takeWhile isNumberChar) with
      | some t =>
        .ok (t, ⟨rest.dropWhile isNumberChar, (List.dropWhile_sublist _).length_le⟩)
      | none => .error (.number (String.ofList (c :: rest.takeWhile isNumberChar))) := by
  unfold next
  split
  case h_16 => exact if_pos h
  -- the other branches are for characters that are no digits
  all_goals cases h

theorem ofNumber?_digits {ds : List Char} (hne : ds ≠ []) (hds : ∀ d ∈ ds, isDigit d = true) :
    ofNumber? ds = (signedWord? (digitsValue ds)).map .int := by
  have hpoint : ¬ ds.contains '.' = true := by
    intro hmem
    cases hds '.' (List.contains_iff_mem.1 hmem)
  rw [ofNumber?, if_neg hpoint, natOfDigits?_eq_some_iff.2 ⟨hne, hds, rfl⟩, Option.bind_some]

theorem ofNumber?_toDigits {n : Int64} (h : 0 ≤ n.toInt) :
    ofNumber? (Nat.toDigits 10 n.toInt.toNat) = some (.int n) := by
  rw [ofNumber?_digits Nat.toDigits_ne_nil fun _ => isDigit_of_mem_toDigits,
    digitsValue_toDigits, Int.toNat_of_nonneg h, signedWord?_toInt, Option.map_some]

theorem Scans.int {n : Int64} (hn : 0 ≤ n.toInt) (hrest : EndsWord rest)
    (h : Scans total rest ts) :
    Scans total (Nat.toDigits 10 n.toInt.toNat ++ rest) (.int n :: ts) := by
  obtain ⟨d, ds, hds, hd⟩ := exists_toDigits_eq_cons n.toInt.toNat
  have hchars : ∀ c ∈ ds, isNumberChar c = true := by
    intro c hc
    rw [isNumberChar, isDigit_of_mem_toDigits (hds ▸ List.mem_cons_of_mem _ hc), Bool.true_or]
  obtain ⟨htake, hdrop⟩ := takeWhile_word hchars rfl rfl hrest
  have hnext := next_digit hd (ds ++ rest)
  simp only [htake, hdrop, ← hds, ofNumber?_toDigits hn] at hnext
  rw [hds, List.cons_append]
  exact .token (isBlank_of_isDigit hd) hnext h

/-- The words of written expressions. -/
def keywords : List (List Char) :=
  [['A', 'N', 'D'], ['O', 'R'], ['N', 'O', 'T'], ['t', 'r', 'u', 'e'], ['f', 'a', 'l', 's', 'e']]

set_option maxRecDepth 4000 in
theorem keywords_all : (keywords.all fun word =>
    word.head?.all isWordStart && word.all fun c => isWordChar c && !isBlank c) = true := by
  decide +kernel

theorem isWordStart_of_keyword {word : List Char} (h : word ∈ keywords) :
    ∀ c ∈ word.head?, isWordStart c = true := by
  have hall := List.all_eq_true.1 keywords_all word h
  rw [Bool.and_eq_true] at hall
  exact fun c hc => (Option.all_eq_true _ _).1 hall.1 c hc

theorem isWordChar_of_keyword {word : List Char} (h : word ∈ keywords) :
    ∀ c ∈ word, isWordChar c = true ∧ isBlank c = false := by
  have hall := List.all_eq_true.1 keywords_all word h
  rw [Bool.and_eq_true] at hall
  intro c hc
  simpa using List.all_eq_true.1 hall.2 c hc

set_option maxRecDepth 4000 in
theorem isWordChar_space : isWordChar ' ' = false ∧ isWordChar ')' = false := by
  decide +kernel

theorem next_keyword {word : List Char} (hword : c :: word ∈ keywords) (rest : List Char) :
    next c rest =
      .ok (ofWord (c :: rest.takeWhile isWordChar),
        ⟨rest.dropWhile isWordChar, (List.dropWhile_sublist _).length_le⟩) := by
  have hstart := isWordStart_of_keyword hword c rfl
  simp only [keywords, List.mem_cons, List.cons.injEq, List.not_mem_nil, or_false] at hword
  rcases hword with ⟨rfl, -⟩ | ⟨rfl, -⟩ | ⟨rfl, -⟩ | ⟨rfl, -⟩ | ⟨rfl, -⟩ <;> exact if_pos hstart

theorem Scans.keyword (word : List Char) (hword : c :: word ∈ keywords) (hrest : EndsWord rest)
    (h : Scans total rest ts) : Scans total (c :: (word ++ rest)) (ofWord (c :: word) :: ts) := by
  have hchars : ∀ d ∈ word, isWordChar d = true := fun d hd =>
    (isWordChar_of_keyword hword d (List.mem_cons_of_mem c hd)).1
  obtain ⟨htake, hdrop⟩ := takeWhile_word hchars isWordChar_space.1 isWordChar_space.2 hrest
  have hnext := next_keyword hword (word ++ rest)
  simp only [htake, hdrop] at hnext
  exact .token (isWordChar_of_keyword hword c List.mem_cons_self).2 hnext h

theorem endsWord_nil : EndsWord [] := by
  rintro _ ⟨⟩

theorem endsWord_space (rest : List Char) : EndsWord (' ' :: rest) := by
  rintro _ ⟨⟩
  exact .inl rfl

theorem endsWord_closeParen (rest : List Char) : EndsWord (')' :: rest) := by
  rintro _ ⟨⟩
  exact .inr rfl

theorem Scans.bool (b : Bool) (hrest : EndsWord rest) (h : Scans total rest ts) :
    Scans total (Expr.literalChars (.bool b) ++ rest) (.bool b :: ts) := by
  cases b with
  | false => exact .keyword ['a', 'l', 's', 'e'] (by decide) hrest h
  | true => exact .keyword ['r', 'u', 'e'] (by decide) hrest h

/-! ## Operators -/

theorem Scans.unaryOp (op : UnaryOp) (h : Scans total rest ts) :
    Scans total (Expr.unaryChars op ++ rest) (Expr.unaryToken op :: ts) := by
  cases op with
  | neg => exact .token (by decide) rfl h
  | not => exact .keyword ['O', 'T'] (by decide) (endsWord_space rest) h.blank

theorem Scans.binaryOp (op : BinaryOp) (h : Scans total rest ts) :
    Scans total (op.symbol.toList ++ ' ' :: rest) (Expr.binaryToken op :: ts) := by
  cases op with
  | or => exact .keyword ['R'] (by decide) (endsWord_space rest) h.blank
  | and => exact .keyword ['N', 'D'] (by decide) (endsWord_space rest) h.blank
  | _ => exact .token (by decide) rfl h.blank

theorem Scans.enclosed {inside : List Char} {us : List Token} (needed : Bool)
    (hinside : ∀ {rest ts}, EndsWord rest → Scans total rest ts →
      Scans total (inside ++ rest) (us ++ ts))
    (hrest : EndsWord rest) (h : Scans total rest ts) :
    Scans total (Expr.enclosed '(' ')' needed inside ++ rest)
      (Expr.enclosed .openParen .closeParen needed us ++ ts) := by
  cases needed with
  | false => exact hinside hrest h
  | true =>
    have hscans := (hinside (endsWord_closeParen rest) h.closeParen).openParen
    simpa [Expr.enclosed] using hscans

/-- The text of an expression is scanned as its tokens, whatever follows that ends a word. -/
theorem scans_chars {e : Expr} (he : e.Writable) (hrest : EndsWord rest)
    (h : Scans total rest ts) : Scans total (e.chars ++ rest) (e.tokens ++ ts) := by
  induction e generalizing rest ts with
  | literal v =>
    cases v with
    | int n => exact .int he hrest h
    | bool b => exact .bool b hrest h
    | text s => exact .text s h
    | null | float _ => exact he.elim
  | ident name => exact .ident name h
  | unary op e ih =>
    have hoperand := Scans.enclosed e.isBinary (fun hrest h => ih he hrest h)
      (endsWord_closeParen rest) h.closeParen
    simpa [Expr.chars, Expr.tokens] using (hoperand.unaryOp op).openParen
  | binary op l r ihl ihr =>
    have hright := Scans.enclosed (r.rank ≤ op.rank)
      (fun hrest h => ihr he.2 hrest h) hrest h
    have hleft := Scans.enclosed (l.rank < op.rank)
      (fun hrest h => ihl he.1 hrest h) (endsWord_space _)
      (hright.binaryOp op).blank
    simpa [Expr.chars, Expr.tokens] using hleft

end Token

end SeriesPipeline
