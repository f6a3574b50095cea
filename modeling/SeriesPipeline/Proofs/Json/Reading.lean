import SeriesPipeline.Json.Reader
import SeriesPipeline.Proofs.Text.Digits

/-!
# Reading written JSON

A value is read back from its text when its numbers are integers that can be read exactly.
-/

namespace SeriesPipeline.Json

open Text

/-- Integers that are read exactly. -/
def IsExactInt (n : Int) : Prop := Int64.minValue.toInt ≤ n ∧ n < UInt64.size

/-- Values that their text says exactly. -/
inductive Exact : Json → Prop where
  | null : Exact .null
  | bool (b : Bool) : Exact (.bool b)
  | int {n : Int} (h : IsExactInt n) : Exact (.int n)
  | text (s : String) : Exact (.text s)
  | array {items : List Json} (h : ∀ j ∈ items, Exact j) : Exact (.array items)
  | object {fields : List (String × Json)} (h : ∀ e ∈ fields, Exact e.2) : Exact (.object fields)

/-- A number does not go on with the text. -/
def EndsNumber (rest : List Char) : Prop :=
  ∀ c ∈ rest.head?, isDigit c = false ∧ c ≠ '.' ∧ c ≠ 'e' ∧ c ≠ 'E'

/-- The value is read from its text, whatever follows that ends a number. -/
def IsRead (j : Json) : Prop :=
  ∀ fuel rest, 2 * j.chars.length + 1 ≤ fuel → EndsNumber rest →
    value? fuel (j.chars ++ rest) = some (j, rest)

/-- Some fuel is there to look at the value. -/
theorem IsRead.of_succ {j : Json} (h : ∀ fuel rest, 2 * j.chars.length ≤ fuel → EndsNumber rest →
    value? (fuel + 1) (j.chars ++ rest) = some (j, rest)) : IsRead j := by
  intro fuel rest hfuel hrest
  obtain ⟨fuel, rfl⟩ := Nat.exists_eq_add_of_le' (Nat.le_trans (Nat.le_add_left 1 _) hfuel)
  exact h fuel rest (Nat.le_of_succ_le_succ hfuel) hrest

variable {cs rest read : List Char} {c : Char} {n fuel : Nat}

/-! ## Strings -/

theorem unit16?_control :
    ∀ n < 32, unit16? '0' '0' (hexDigit (n / 16)) (hexDigit (n % 16)) = some n := by
  decide

/-- A control character is escaped by its code, which is no surrogate. -/
theorem stringBody_control (h : c.toNat < 32) (read rest : List Char) :
    stringBody none true read
        ('\\' :: 'u' :: '0' :: '0' :: hexDigit (c.toNat / 16) :: hexDigit (c.toNat % 16) :: rest) =
      stringBody none true (c :: read) rest := by
  have hhigh : isHighSurrogate c.toNat = false := by
    rw [isHighSurrogate, Bool.and_eq_false_iff]
    exact .inl (decide_eq_false (by omega))
  have hlow : isLowSurrogate c.toNat = false := by
    rw [isLowSurrogate, Bool.and_eq_false_iff]
    exact .inl (decide_eq_false (by omega))
  simp [stringBody, unit16?_control _ h, hhigh, hlow, Char.ofNat_toNat]

theorem stringBody_cons (hquote : c ≠ '"') (hbackslash : c ≠ '\\') (h : 32 ≤ c.toNat)
    (read rest : List Char) :
    stringBody none true read (c :: rest) = stringBody none true (c :: read) rest := by
  have hplain : ¬ (decide (c.toNat < 32) || decide (c = '\\')) = true := by
    simp [hbackslash, h]
  rw [stringBody]
  · rw [if_neg hplain]
    rfl
  · exact hquote
  · rintro _ _ _ _ _ rfl
    exact absurd rfl hbackslash
  · rintro _ _ rfl
    exact absurd rfl hbackslash

/-- A character is read back from its escaped form. -/
theorem stringBody_escapedChar (c : Char) (read rest : List Char) :
    stringBody none true read (escapedChar c ++ rest) = stringBody none true (c :: read) rest := by
  unfold escapedChar
  split
  · simp [stringBody, unescaped?]
  · simp [stringBody, unescaped?]
  · simp [stringBody, unescaped?]
  · simp [stringBody, unescaped?]
  · simp [stringBody, unescaped?]
  · rename_i hquote hbackslash _ _ _
    split
    · rename_i hbackspace
      obtain rfl : Char.ofNat 8 = c := by rw [← hbackspace, Char.ofNat_toNat]
      rfl
    · split
      · rename_i hfeed
        obtain rfl : Char.ofNat 12 = c := by rw [← hfeed, Char.ofNat_toNat]
        rfl
      · split
        · rename_i hcontrol
          exact stringBody_control hcontrol read rest
        · rename_i hplain
          exact stringBody_cons hquote hbackslash (Nat.le_of_not_lt hplain) read rest

theorem stringBody_flatMap (cs read rest : List Char) :
    stringBody none true read (cs.flatMap escapedChar ++ '"' :: rest) =
      some (true, read.reverse ++ cs, rest) := by
  induction cs generalizing read with
  | nil => simp [stringBody]
  | cons c cs ih =>
    rw [List.flatMap_cons, List.append_assoc, stringBody_escapedChar, ih, List.reverse_cons,
      List.append_assoc]
    rfl

theorem stringBody_stringText (s : String) (rest : List Char) :
    stringBody none true [] (s.toList.flatMap escapedChar ++ '"' :: rest) =
      some (true, s.toList, rest) :=
  stringBody_flatMap s.toList [] rest

/-! ## Numbers -/

theorem number?_toDigits (negative : Bool) (n : Nat) (hrest : EndsNumber rest) :
    number? negative (Nat.toDigits 10 n ++ rest) =
      some (integer negative (Nat.toDigits 10 n), rest) := by
  have hspan := spanDigits_append (fun _ => isDigit_of_mem_toDigits (n := n))
    fun c hc => (hrest c hc).1
  -- neither without digits nor with a zero in front
  have hproper : ¬ ((Nat.toDigits 10 n).isEmpty ||
      (decide ((Nat.toDigits 10 n).head? = some '0') &&
        decide (1 < (Nat.toDigits 10 n).length))) = true := by
    simp only [Bool.or_eq_true, List.isEmpty_iff, Bool.and_eq_true, decide_eq_true_eq, not_or,
      not_and]
    exact ⟨Nat.toDigits_ne_nil, fun hzero hlong => head?_toDigits_ne hlong hzero⟩
  simp only [number?, hspan, if_neg hproper]
  cases rest with
  | nil => rfl
  | cons c tail =>
    obtain ⟨-, hpoint, he, hE⟩ := hrest c rfl
    simp [hpoint, he, hE]

theorem integer_toDigits (h : n < UInt64.size) :
    integer false (Nat.toDigits 10 n) = .int n := by
  simp [integer, digitsValue_toDigits, h]

theorem integer_neg_toDigits (hn : n ≠ 0) (h : Int64.minValue.toInt ≤ -n) :
    integer true (Nat.toDigits 10 n) = .int (-n) := by
  have hword : (signedWord? (-n)).isSome = true := by
    have hle : -(n : Int) ≤ Int64.maxValue.toInt :=
      Int.le_trans (Int.neg_nonpos_of_nonneg (Int.natCast_nonneg n)) (by decide)
    rw [signedWord?, dif_pos ⟨h, hle⟩]
    rfl
  simp [integer, digitsValue_toDigits, hn, hword]

/-! ## Values -/

theorem skipSpace_cons (h : isSpace c = false) : skipSpace (c :: rest) = c :: rest :=
  List.dropWhile_cons_of_neg (by simp [h])

theorem isRead_null : IsRead .null :=
  .of_succ fun _ _ _ _ => rfl

theorem isRead_bool (b : Bool) : IsRead (.bool b) := by
  cases b <;> exact .of_succ fun _ _ _ _ => rfl

theorem isRead_text (s : String) : IsRead (.text s) := by
  refine .of_succ fun fuel rest _ _ => ?_
  have hchars : (text s).chars ++ rest = '"' :: (s.toList.flatMap escapedChar ++ '"' :: rest) := by
    rw [chars, stringText, List.append_assoc]
    rfl
  have hread : ∀ cs, value? (fuel + 1) ('"' :: cs) =
      (stringBody none true [] cs).map fun r =>
        (if r.1 then .text (String.ofList r.2.1) else .unreadable, r.2.2) := fun _ => rfl
  rw [hchars, hread, stringBody_stringText]
  exact congrArg (fun t => some (Json.text t, rest)) String.ofList_toList

theorem isSpace_of_isDigit (h : isDigit c = true) : isSpace c = false := by
  cases hs : isSpace c with
  | false => rfl
  | true =>
    simp only [isSpace, Bool.or_eq_true, decide_eq_true_eq] at hs
    rcases hs with ((rfl | rfl) | rfl) | rfl <;> cases h

theorem value?_digit (h : isDigit c = true) :
    value? (fuel + 1) (c :: rest) = number? false (c :: rest) := by
  rw [value?, skipSpace_cons (isSpace_of_isDigit h)]
  split <;> try rfl
  -- the other branches are for heads that are no digits
  all_goals
    rename_i heq
    cases heq
  all_goals cases h

theorem isRead_int {n : Int} (h : IsExactInt n) : IsRead (.int n) := by
  refine .of_succ fun fuel rest _ hrest => ?_
  rw [chars, intText]
  split
  · rename_i hneg
    have hread : value? (fuel + 1) ('-' :: Nat.toDigits 10 n.natAbs ++ rest) =
        number? true (Nat.toDigits 10 n.natAbs ++ rest) := rfl
    have habs : -(n.natAbs : Int) = n := by omega
    rw [hread, number?_toDigits true _ hrest,
      integer_neg_toDigits (by omega) (by rw [habs]; exact h.1), habs]
  · rename_i hpos
    have habs : (n.natAbs : Int) = n := by omega
    have hlt : n.natAbs < UInt64.size := Int.ofNat_lt.1 (by rw [habs]; exact h.2)
    obtain ⟨c, ds, hds, hc⟩ := exists_toDigits_eq_cons n.natAbs
    have hread : value? (fuel + 1) (Nat.toDigits 10 n.natAbs ++ rest) =
        number? false (Nat.toDigits 10 n.natAbs ++ rest) := by
      rw [hds]
      exact value?_digit hc
    rw [hread, number?_toDigits false _ hrest, integer_toDigits hlt, habs]

/-! ## Arrays and objects -/

theorem endsNumber_cons (h : isDigit c = false ∧ c ≠ '.' ∧ c ≠ 'e' ∧ c ≠ 'E') (rest : List Char) :
    EndsNumber (c :: rest) := by
  rintro _ ⟨⟩
  exact h

/-- No value begins with a space or a closing bracket. -/
theorem Exact.head {j : Json} (h : Exact j) :
    ∃ c tail, j.chars = c :: tail ∧ isSpace c = false ∧ c ≠ ']' := by
  cases h with
  | null => exact ⟨_, _, rfl, rfl, by decide⟩
  | bool b => cases b <;> exact ⟨_, _, rfl, rfl, by decide⟩
  | int =>
    rw [chars, intText]
    split
    · exact ⟨_, _, rfl, rfl, by decide⟩
    · rename_i n _ _
      obtain ⟨c, ds, hds, hc⟩ := exists_toDigits_eq_cons n.natAbs
      exact ⟨c, ds, hds, isSpace_of_isDigit hc, by rintro rfl; cases hc⟩
  | text s => exact ⟨_, _, rfl, rfl, by decide⟩
  | array => exact ⟨_, _, rfl, rfl, by decide⟩
  | object => exact ⟨_, _, rfl, rfl, by decide⟩

theorem items?_itemChars {items : List Json} (hitems : items ≠ []) (h : ∀ j ∈ items, IsRead j)
    (hfuel : 2 * (itemChars items).length + 2 ≤ fuel) (rest : List Char) :
    items? fuel (itemChars items ++ ']' :: rest) = some (items, rest) := by
  induction items generalizing fuel with
  | nil => exact absurd rfl hitems
  | cons j others ih =>
    obtain ⟨fuel, rfl⟩ := Nat.exists_eq_add_of_le' (Nat.le_trans (Nat.le_add_left 1 _) hfuel)
    obtain ⟨hj, hothers⟩ := List.forall_mem_cons.1 h
    -- a number ends at the comma before the next item as well as at the bracket
    cases others with
    | nil =>
      rw [itemChars] at hfuel ⊢
      have hread := hj fuel (']' :: rest) (by omega) (endsNumber_cons (by decide) rest)
      rw [items?, hread]
      rfl
    | cons k others =>
      have hsplit : itemChars (j :: k :: others) = j.chars ++ ',' :: itemChars (k :: others) := rfl
      rw [hsplit] at hfuel ⊢
      rw [List.length_append, List.length_cons] at hfuel
      have hread := hj fuel (',' :: (itemChars (k :: others) ++ ']' :: rest)) (by omega)
        (endsNumber_cons (by decide) _)
      have hitems :
          items? fuel (itemChars (k :: others) ++ ']' :: rest) = some (k :: others, rest) :=
        ih (List.cons_ne_nil k others) hothers (by omega)
      rw [List.append_assoc, List.cons_append, items?, hread]
      show (items? fuel (itemChars (k :: others) ++ ']' :: rest)).bind _ = _
      rw [hitems]
      rfl

theorem value?_bracket (hspace : isSpace c = false) (hclose : c ≠ ']') :
    value? (fuel + 1) ('[' :: c :: rest) =
      (items? fuel (c :: rest)).map fun (items, rest) => (.array items, rest) := by
  rw [value?, skipSpace_cons (c := '[') rfl]
  simp only [skipSpace_cons hspace]
  split
  · rename_i heq
    cases heq
    exact absurd rfl hclose
  · rfl

theorem isRead_array {items : List Json} (h : ∀ j ∈ items, Exact j ∧ IsRead j) :
    IsRead (.array items) := by
  refine .of_succ fun fuel rest hfuel _ => ?_
  have hchars : (array items).chars = '[' :: (itemChars items ++ [']']) := by rw [chars]; rfl
  rw [hchars, List.length_cons, List.length_append, List.length_singleton] at hfuel
  rw [hchars, List.cons_append, List.append_assoc, List.singleton_append]
  cases items with
  | nil => rfl
  | cons j others =>
    have hitems := items?_itemChars (List.cons_ne_nil j others) (fun k hk => (h k hk).2)
      (by omega : _ ≤ fuel) rest
    -- the array is not taken for an empty one
    obtain ⟨c, tail, hj, hspace, hclose⟩ := (h j List.mem_cons_self).1.head
    have hhead : ∃ tail, itemChars (j :: others) ++ ']' :: rest = c :: tail := by
      cases others with
      | nil => exact ⟨tail ++ ']' :: rest, by rw [itemChars, hj]; rfl⟩
      | cons k others =>
        refine ⟨tail ++ ',' :: itemChars (k :: others) ++ ']' :: rest, ?_⟩
        show j.chars ++ ',' :: itemChars (k :: others) ++ _ = _
        rw [hj]
        rfl
    obtain ⟨tail, htail⟩ := hhead
    rw [htail] at hitems ⊢
    rw [value?_bracket hspace hclose, hitems]
    rfl

/-- A key and its colon are read, and then the value. -/
theorem fields?_stringText (key : String) (cs : List Char) :
    fields? (fuel + 1) (stringText key ++ ':' :: cs) = (value? fuel cs).bind fun (j, rest) =>
      match skipSpace rest with
      | ',' :: rest => (fields? fuel rest).bind fun (others, fields, rest) =>
        some (others, (key, j) :: fields, rest)
      | '\x7d' :: rest => some (true, [(key, j)], rest)
      | _ => none := by
  have htext : stringText key ++ ':' :: cs =
      '"' :: (key.toList.flatMap escapedChar ++ '"' :: ':' :: cs) := by
    rw [stringText, List.append_assoc]
    rfl
  rw [htext, fields?, skipSpace_cons rfl]
  show (stringBody none true [] _).bind _ = _
  rw [stringBody_stringText, Option.bind_some]
  dsimp only
  rw [String.ofList_toList]
  rfl

theorem fields?_fieldChars {fields : List (String × Json)} (hfields : fields ≠ [])
    (h : ∀ e ∈ fields, IsRead e.2) (hfuel : 2 * (fieldChars fields).length + 2 ≤ fuel)
    (rest : List Char) :
    fields? fuel (fieldChars fields ++ '\x7d' :: rest) = some (true, fields, rest) := by
  induction fields generalizing fuel with
  | nil => exact absurd rfl hfields
  | cons e others ih =>
    obtain ⟨key, j⟩ := e
    obtain ⟨fuel, rfl⟩ := Nat.exists_eq_add_of_le' (Nat.le_trans (Nat.le_add_left 1 _) hfuel)
    obtain ⟨hj, hothers⟩ := List.forall_mem_cons.1 h
    have hj : IsRead j := hj
    cases others with
    | nil =>
      have hsplit : fieldChars [(key, j)] = stringText key ++ ':' :: j.chars := rfl
      rw [hsplit, List.length_append, List.length_cons] at hfuel
      have hread := hj fuel ('\x7d' :: rest) (by omega) (endsNumber_cons (by decide) rest)
      rw [hsplit, List.append_assoc, List.cons_append, fields?_stringText, hread]
      rfl
    | cons e others =>
      have hsplit : fieldChars ((key, j) :: e :: others) =
          stringText key ++ ':' :: (j.chars ++ ',' :: fieldChars (e :: others)) := by
        rw [← List.cons_append, ← List.append_assoc]
        rfl
      rw [hsplit, List.length_append, List.length_cons, List.length_append,
        List.length_cons] at hfuel
      have hread := hj fuel (',' :: (fieldChars (e :: others) ++ '\x7d' :: rest)) (by omega)
        (endsNumber_cons (by decide) _)
      have hfields : fields? fuel (fieldChars (e :: others) ++ '\x7d' :: rest) =
          some (true, e :: others, rest) :=
        ih (List.cons_ne_nil e others) hothers (by omega)
      rw [hsplit, List.append_assoc, List.cons_append, List.append_assoc, List.cons_append,
        fields?_stringText, hread]
      show (fields? fuel (fieldChars (e :: others) ++ '\x7d' :: rest)).bind _ = _
      rw [hfields]
      rfl

theorem isRead_object {fields : List (String × Json)} (h : ∀ e ∈ fields, IsRead e.2) :
    IsRead (.object fields) := by
  refine .of_succ fun fuel rest hfuel _ => ?_
  have hchars : (object fields).chars = '\x7b' :: (fieldChars fields ++ ['\x7d']) := by
    rw [chars]
    rfl
  rw [hchars, List.length_cons, List.length_append, List.length_singleton] at hfuel
  rw [hchars, List.cons_append, List.append_assoc, List.singleton_append]
  cases fields with
  | nil => rfl
  | cons e others =>
    have hfields := fields?_fieldChars (List.cons_ne_nil e others) h (by omega : _ ≤ fuel) rest
    have hhead : ∃ tail, fieldChars (e :: others) ++ '\x7d' :: rest = '"' :: tail := by
      cases others <;> exact ⟨_, rfl⟩
    obtain ⟨tail, htail⟩ := hhead
    rw [htail] at hfields ⊢
    have hread : value? (fuel + 1) ('\x7b' :: '"' :: tail) =
        (fields? fuel ('"' :: tail)).map fun (whole, fields, rest) =>
          (if whole then .object fields else .unreadable, rest) := rfl
    rw [hread, hfields]
    rfl

/-! ## Whole texts -/

theorem Exact.isRead {j : Json} (h : Exact j) : IsRead j := by
  induction h with
  | null => exact isRead_null
  | bool b => exact isRead_bool b
  | int h => exact isRead_int h
  | text s => exact isRead_text s
  | array h ih => exact isRead_array fun j hj => ⟨h j hj, ih j hj⟩
  | object _ ih => exact isRead_object ih

theorem ofChars?_chars {j : Json} (h : Exact j) : ofChars? j.chars = some j := by
  have hread := h.isRead (2 * j.chars.length + 2) [] (Nat.le_succ _) nofun
  rw [List.append_nil] at hread
  rw [ofChars?, hread]
  rfl

/-! ## Line ends -/

theorem newline_notMem_escapedChar (c : Char) : '\n' ∉ escapedChar c := by
  unfold escapedChar
  split
  · decide
  · decide
  · decide
  · decide
  · decide
  · rename_i hnewline _ _
    split
    · decide
    · split
      · decide
      · split
        · rename_i hcontrol
          have hdigits : ∀ n < 32, '\n' ≠ hexDigit (n / 16) ∧ '\n' ≠ hexDigit (n % 16) := by decide
          obtain ⟨hhigh, hlow⟩ := hdigits c.toNat hcontrol
          simp [hhigh, hlow]
        · exact fun hmem => hnewline (List.mem_singleton.1 hmem).symm

theorem newline_notMem_stringText (s : String) : '\n' ∉ stringText s := by
  simp [stringText, newline_notMem_escapedChar]

theorem newline_notMem_intText (n : Int) : '\n' ∉ intText n := by
  have hdigits : '\n' ∉ Nat.toDigits 10 n.natAbs := by
    intro hmem
    cases isDigit_of_mem_toDigits hmem
  rw [intText]
  split
  · simp [hdigits]
  · exact hdigits

theorem newline_notMem_itemChars {items : List Json} (h : ∀ j ∈ items, '\n' ∉ j.chars) :
    '\n' ∉ itemChars items := by
  induction items with
  | nil => exact List.not_mem_nil
  | cons j others ih =>
    obtain ⟨hj, hothers⟩ := List.forall_mem_cons.1 h
    cases others with
    | nil => rwa [itemChars]
    | cons k others =>
      show '\n' ∉ j.chars ++ ',' :: itemChars (k :: others)
      simp [hj, ih hothers]

theorem newline_notMem_fieldChars {fields : List (String × Json)}
    (h : ∀ e ∈ fields, '\n' ∉ e.2.chars) : '\n' ∉ fieldChars fields := by
  induction fields with
  | nil => exact List.not_mem_nil
  | cons e others ih =>
    obtain ⟨hj, hothers⟩ := List.forall_mem_cons.1 h
    have hkey := newline_notMem_stringText e.1
    cases others with
    | nil =>
      show '\n' ∉ stringText e.1 ++ ':' :: e.2.chars
      simp [hkey, hj]
    | cons e' others =>
      show '\n' ∉ stringText e.1 ++ ':' :: e.2.chars ++ ',' :: fieldChars (e' :: others)
      simp [hkey, hj, ih hothers]

/-- A value is written on one line. -/
theorem Exact.newline_notMem {j : Json} (h : Exact j) : '\n' ∉ j.chars := by
  induction h with
  | null => decide
  | bool b => cases b <;> decide
  | int => exact newline_notMem_intText _
  | text s => exact newline_notMem_stringText s
  | array _ ih => simp [chars, newline_notMem_itemChars ih]
  | object _ ih => simp [chars, newline_notMem_fieldChars ih]

end SeriesPipeline.Json
