import SeriesPipeline.Proofs.Text.Blank
import SeriesPipeline.Proofs.Text.Digits
import SeriesPipeline.Time.Span

/-!
# Span literals

A literal is a number and a unit with white space around them, and stands for their product. The
literals that are read are those whose product is within reach of an instant. A span is written in
the largest unit that divides it, and what is written is read back.
-/

namespace SeriesPipeline.Span

open Text

variable {source unit : String} {d : Span} {size n : Nat}

/-! ## What literals stand for -/

/-- The units of literals, with their nanoseconds. -/
def units : List (String × Nat) :=
  [("ns", 1), ("u", 1000), ("us", 1000), ("µs", 1000), ("ms", 1000000), ("s", 1000000000),
    ("m", 60 * 1000000000), ("h", 3600 * 1000000000), ("d", 86400 * 1000000000),
    ("w", 604800 * 1000000000)]

/-- The text is the digits and the unit with white space around them. -/
structure IsLiteral (source : String) (digits : List Char) (unit : String) (size : Nat) : Prop where
  framed : ∃ before after, source.toList = before ++ (digits ++ unit.toList) ++ after ∧
    (∀ c ∈ before, isBlank c = true) ∧ ∀ c ∈ after, isBlank c = true
  nonempty : digits ≠ []
  digits : ∀ d ∈ digits, isDigit d = true
  unit : (unit, size) ∈ units

/-- The text is a literal, and the product of its number and its unit is `n`. -/
def Denotes (source : String) (n : Nat) : Prop :=
  ∃ digits unit size, IsLiteral source digits unit size ∧ n = digitsValue digits * size

theorem unitNanos?_eq_some_iff : unitNanos? unit = some size ↔ (unit, size) ∈ units := by
  unfold unitNanos?
  split <;> simp_all [units, eq_comm]

theorem size_pos (h : (unit, size) ∈ units) : 0 < size := by
  have hall : ∀ u ∈ units, 0 < u.2 := by decide
  exact hall _ h

/-- A unit has neither a digit in front nor white space behind. -/
theorem unit_ends (h : (unit, size) ∈ units) :
    (∀ c ∈ unit.toList.head?, isDigit c = false) ∧
      ∃ c ∈ unit.toList.getLast?, isBlank c = false := by
  have hall : ∀ u ∈ units, (u.1.toList.head?.all fun c => !isDigit c) = true ∧
      (u.1.toList.getLast?.any fun c => !isBlank c) = true := by decide
  simpa [Option.all_eq_true, Option.any_eq_true] using hall _ h

namespace IsLiteral

variable {digits : List Char}

theorem trimList_eq (h : IsLiteral source digits unit size) :
    trimList source.toList = digits ++ unit.toList := by
  obtain ⟨before, after, htext, hbefore, hafter⟩ := h.framed
  obtain ⟨d, ds, rfl⟩ := List.exists_cons_of_ne_nil h.nonempty
  obtain ⟨c, hc, hblank⟩ := (unit_ends h.unit).2
  rw [htext]
  refine trimList_append hbefore hafter
    ⟨d, rfl, isBlank_of_isDigit (h.digits d List.mem_cons_self)⟩ fun c' hc' => ?_
  have hlast : (d :: ds ++ unit.toList).getLast? = some c := by
    rw [List.getLast?_append, Option.mem_def.1 hc, Option.some_or]
  rw [hlast, Option.mem_def, Option.some.injEq] at hc'
  exact hc' ▸ hblank

/-- The number ends where the unit begins. -/
theorem spanDigits_eq (h : IsLiteral source digits unit size) :
    spanDigits (trimList source.toList) = (digits, unit.toList) := by
  rw [h.trimList_eq]
  exact spanDigits_append h.digits (unit_ends h.unit).1

end IsLiteral

/-- A text stands for one number at most. -/
theorem Denotes.unique {m : Nat} (hn : Denotes source n) (hm : Denotes source m) : n = m := by
  obtain ⟨digits, unit, size, h, rfl⟩ := hn
  obtain ⟨digits', unit', size', h', rfl⟩ := hm
  obtain ⟨rfl, hname⟩ := Prod.mk.inj (h.spanDigits_eq.symm.trans h'.spanDigits_eq)
  obtain rfl := String.toList_inj.1 hname
  have hsize : some size = some size' := by
    rw [← unitNanos?_eq_some_iff.2 h.unit, ← unitNanos?_eq_some_iff.2 h'.unit]
  rw [Option.some.inj hsize]

/-! ## Reading -/

/-- A text that stands for a span within reach is read as that span. -/
theorem parse_of_denotes (h : Denotes source n) (hle : n ≤ longest) : parse source = .ok ⟨n⟩ := by
  obtain ⟨digits, unit, size, h, rfl⟩ := h
  have hamount : ¬ UInt64.size ≤ digitsValue digits := by
    have hmul := Nat.le_mul_of_pos_right (digitsValue digits) (size_pos h.unit)
    have hlongest : longest < UInt64.size := by decide
    omega
  simp only [parse, h.spanDigits_eq, natOfDigits?_eq_some_iff.2 ⟨h.nonempty, h.digits, rfl⟩,
    if_neg hamount, String.ofList_toList, unitNanos?_eq_some_iff.2 h.unit, if_neg (Nat.not_lt.2 hle)]

theorem denotes_of_parse (h : parse source = .ok d) : Denotes source d.nanos ∧ d.nanos ≤ longest := by
  obtain ⟨before, after, htext, hbefore, hafter⟩ := exists_eq_trimList source.toList
  rw [parse] at h
  obtain ⟨digits, rest, hspan⟩ : ∃ digits rest, spanDigits (trimList source.toList) = (digits, rest) :=
    ⟨_, _, rfl⟩
  obtain ⟨hcore, -⟩ := of_spanDigits_eq hspan
  simp only [hspan] at h
  split at h
  · cases h
  rename_i amount hamount
  obtain ⟨hne, hdigits, rfl⟩ := natOfDigits?_eq_some_iff.1 hamount
  split_ifs at h
  split at h
  · cases h
  rename_i size hsize
  split_ifs at h with hlt
  cases h
  refine ⟨⟨digits, String.ofList rest, size, ⟨⟨before, after, ?_, hbefore, hafter⟩, hne, hdigits,
    unitNanos?_eq_some_iff.1 hsize⟩, rfl⟩, Nat.not_lt.1 hlt⟩
  rw [String.toList_ofList, ← hcore]
  exact htext

/-! ## Writing -/

/-- The units that spans are written in, with their nanoseconds, the largest first. -/
def textUnits : List (Nat × String) :=
  [(3600 * 1000000000, "h"), (60 * 1000000000, "m"), (1000000000, "s"), (1000000, "ms"),
    (1000, "us"), (1, "ns")]

theorem textUnits_eq : textUnits = writtenUnits ++ [(1, "ns")] := by
  rfl

/-- A span is written in the largest unit that divides it. -/
theorem exists_text_eq (h : d.nanos ≠ 0) :
    ∃ u ∈ textUnits, u.1 ∣ d.nanos ∧ (∀ v ∈ textUnits, v.1 ∣ d.nanos → v.1 ≤ u.1) ∧
      d.text = toString (d.nanos / u.1) ++ u.2 := by
  have hsorted : textUnits.Pairwise fun u v => v.1 < u.1 := by decide
  -- the nanosecond, which divides every span, is the unit that is found if no other is
  have htext : (textUnits.find? fun u => d.nanos % u.1 = 0).map
      (fun u => toString (d.nanos / u.1) ++ u.2) = some d.text := by
    rw [textUnits_eq, List.find?_append, text, if_neg h]
    cases hfind : writtenUnits.find? fun u => d.nanos % u.1 = 0 with
    | some u => rfl
    | none => simp [Nat.mod_one]
  obtain ⟨u, hfind, htext⟩ := Option.map_eq_some_iff.1 htext
  obtain ⟨hdvd, front, back, hunits, hfront⟩ := List.find?_eq_some_iff_append.1 hfind
  refine ⟨u, List.mem_of_find?_eq_some hfind, Nat.dvd_of_mod_eq_zero (of_decide_eq_true hdvd),
    fun v hv hvd => ?_, htext.symm⟩
  rw [hunits] at hv hsorted
  rcases List.mem_append.1 hv with hv | hv
  · have hno := hfront v hv
    simp [Nat.mod_eq_zero_of_dvd hvd] at hno
  · rcases List.mem_cons.1 hv with rfl | hv
    · exact Nat.le_refl _
    · have hlt := (List.pairwise_cons.1 (List.pairwise_append.1 hsorted).2.1).1 v hv
      exact Nat.le_of_lt hlt

theorem denotes_toString_append (n : Nat) (h : (unit, size) ∈ units) :
    Denotes (toString n ++ unit) (n * size) := by
  refine ⟨Nat.toDigits 10 n, unit, size, ⟨⟨[], [], ?_, nofun, nofun⟩, Nat.toDigits_ne_nil,
    fun _ => isDigit_of_mem_toDigits, h⟩, by rw [digitsValue_toDigits]⟩
  rw [String.toList_append, List.nil_append, List.append_nil, Nat.toString_eq_repr, Nat.toList_repr]

theorem denotes_text (d : Span) : Denotes d.text d.nanos := by
  have hunits : ∀ u ∈ textUnits, (u.2, u.1) ∈ units := by decide
  by_cases hzero : d.nanos = 0
  · rw [text, if_pos hzero, hzero]
    have hsecond : ("s", 1000000000) ∈ units := by decide
    exact denotes_toString_append 0 hsecond
  · obtain ⟨u, hu, hdvd, -, htext⟩ := exists_text_eq hzero
    have hdenotes := denotes_toString_append (d.nanos / u.1) (hunits u hu)
    rwa [Nat.div_mul_cancel hdvd, ← htext] at hdenotes

/-- The literals that are read are those within reach, each as its product; every span within reach
is read back from its text, which uses the largest unit there is for it. -/
theorem literals_exact :
    (∀ source n, Denotes source n → ∀ m, Denotes source m → n = m) ∧
    (∀ source d, parse source = .ok d ↔ Denotes source d.nanos ∧ d.nanos ≤ longest) ∧
    (∀ d : Span, d.nanos ≤ longest → parse d.text = .ok d) ∧
    ∀ d : Span, (d.nanos = 0 → d.text = "0s") ∧ (d.nanos ≠ 0 →
      ∃ u ∈ textUnits, u.1 ∣ d.nanos ∧ (∀ v ∈ textUnits, v.1 ∣ d.nanos → v.1 ≤ u.1) ∧
        d.text = toString (d.nanos / u.1) ++ u.2) := by
  refine ⟨fun source n hn m hm => hn.unique hm, fun source d => ⟨denotes_of_parse, ?_⟩,
    fun d hle => parse_of_denotes d.denotes_text hle,
    fun d => ⟨fun hzero => if_pos hzero, exists_text_eq⟩⟩
  rintro ⟨hdenotes, hle⟩
  exact parse_of_denotes hdenotes hle

/-- A number with a zero in front and white space around it, and a span that is not a number of
seconds. -/
theorem literals_exact_micros :
    parse " 0250µs\n" = .ok ⟨250000⟩ ∧ parse (text ⟨1500000000⟩) = .ok ⟨1500000000⟩ := by
  have hdenotes : Denotes " 0250µs\n" 250000 :=
    ⟨['0', '2', '5', '0'], "µs", 1000, ⟨⟨[' '], ['\n'], by decide, List.all_eq_true.1 rfl,
      List.all_eq_true.1 rfl⟩, by decide, List.all_eq_true.1 rfl, by decide⟩, by decide⟩
  obtain ⟨-, hparse, htext, -⟩ := literals_exact
  exact ⟨(hparse _ ⟨250000⟩).2 ⟨hdenotes, by decide⟩, htext ⟨1500000000⟩ (by decide)⟩

end SeriesPipeline.Span
