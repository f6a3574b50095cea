import SeriesPipeline.Proofs.Text.Digits
import SeriesPipeline.Proofs.Time.Calendar
import SeriesPipeline.Time.Rfc3339

/-!
# Written times

A written time is a text put together from parts. The texts that are read as times are exactly
these, and what is read is what the parts say. Every instant's own text is one of them and stands
for that instant, so it is read back.
-/

namespace SeriesPipeline

namespace Rfc3339

open Calendar Text

/-- A number of exactly `n` digits. -/
structure AreDigits (n : Nat) (ds : List Char) : Prop where
  length : ds.length = n
  digits : ∀ d ∈ ds, isDigit d = true

/-- How a text says how far its clock is from UTC. -/
inductive Zone where
  | utc (letter : Char)
  | offset (sign : Char) (hours minutes : List Char)

namespace Zone

def text : Zone → List Char
  | utc letter => [letter]
  | offset sign hours minutes => sign :: hours ++ ':' :: minutes

def minutesEast : Zone → Int
  | utc _ => 0
  | offset sign hours minutes =>
    let minutes : Int := digitsValue hours * 60 + digitsValue minutes
    if sign = '+' then minutes else -minutes

def IsProper : Zone → Prop
  | utc letter => letter = 'Z' ∨ letter = 'z'
  | offset sign hours minutes => (sign = '+' ∨ sign = '-' ∨ sign = '\u2212') ∧
    AreDigits 2 hours ∧ AreDigits 2 minutes ∧ digitsValue hours < 24 ∧ digitsValue minutes < 60

end Zone

/-- The parts of a written time. -/
structure Form where
  year : List Char
  month : List Char
  day : List Char
  separator : Char
  hour : List Char
  minute : List Char
  second : List Char
  /-- The digits after the point, if there is one. -/
  fraction : Option (List Char)
  zone : Zone

namespace Form

def fractionText (f : Form) : List Char := f.fraction.elim [] ('.' :: ·)

def text (f : Form) : List Char :=
  f.year ++ '-' :: (f.month ++ '-' :: (f.day ++ f.separator :: (f.hour ++ ':' :: (f.minute ++
    ':' :: (f.second ++ (f.fractionText ++ f.zone.text))))))

/-- The whole nanoseconds of the fraction. -/
def nanos (f : Form) : Nat :=
  f.fraction.elim 0 fun ds => digitsValue ds * Nat.pow 10 9 / Nat.pow 10 ds.length

/-- What the parts say. -/
def stamp (f : Form) : Stamp where
  date := ⟨digitsValue f.year, digitsValue f.month, digitsValue f.day⟩
  hour := digitsValue f.hour
  minute := digitsValue f.minute
  second := digitsValue f.second
  nanos := f.nanos
  offsetMinutes := f.zone.minutesEast

structure IsProper (f : Form) : Prop where
  year : AreDigits 4 f.year
  month : AreDigits 2 f.month
  day : AreDigits 2 f.day
  separator : f.separator = 'T' ∨ f.separator = 't' ∨ f.separator = ' '
  hour : AreDigits 2 f.hour
  minute : AreDigits 2 f.minute
  second : AreDigits 2 f.second
  fraction : ∀ ds ∈ f.fraction, ds ≠ [] ∧ ∀ d ∈ ds, isDigit d = true
  zone : f.zone.IsProper
  valid : f.stamp.isValid = true

end Form

/-- The text is that of a proper written time, which says `s`. -/
def Denotes (cs : List Char) (s : Stamp) : Prop :=
  ∃ f : Form, f.IsProper ∧ f.text = cs ∧ f.stamp = s

variable {cs ds rest : List Char} {c : Char} {n v : Nat}

/-! ## Reading the parts -/

theorem fixedDigits?_append (h : AreDigits n ds) (rest : List Char) :
    fixedDigits? n (ds ++ rest) = some (digitsValue ds, rest) := by
  have htake : (ds ++ rest).take n = ds := List.take_left' h.length
  have hdrop : (ds ++ rest).drop n = rest := List.drop_left' h.length
  have hall : ds.all isDigit = true := List.all_eq_true.2 h.digits
  rw [fixedDigits?, htake, hdrop]
  simp [h.length, hall]

theorem of_fixedDigits?_eq_some (h : fixedDigits? n cs = some (v, rest)) :
    ∃ ds, AreDigits n ds ∧ cs = ds ++ rest ∧ digitsValue ds = v := by
  rw [fixedDigits?] at h
  obtain ⟨hds, heq⟩ := Option.ite_none_right_eq_some.1 h
  cases heq
  rw [Bool.and_eq_true, decide_eq_true_eq, List.all_eq_true] at hds
  exact ⟨cs.take n, ⟨hds.1, hds.2⟩, (List.take_append_drop n cs).symm, rfl⟩

theorem literal?_cons (c : Char) (rest : List Char) : literal? c (c :: rest) = some rest :=
  if_pos rfl

theorem of_literal?_eq_some (h : literal? c cs = some rest) : cs = c :: rest := by
  cases cs with
  | nil => cases h
  | cons d cs =>
    obtain ⟨rfl, heq⟩ := Option.ite_none_right_eq_some.1 h
    cases heq
    rfl

theorem separator?_cons (h : c = 'T' ∨ c = 't' ∨ c = ' ') (rest : List Char) :
    separator? (c :: rest) = some rest :=
  if_pos (by simpa [or_assoc] using h)

theorem of_separator?_eq_some (h : separator? cs = some rest) :
    ∃ c, (c = 'T' ∨ c = 't' ∨ c = ' ') ∧ cs = c :: rest := by
  cases cs with
  | nil => cases h
  | cons c cs =>
    obtain ⟨hc, heq⟩ := Option.ite_none_right_eq_some.1 h
    cases heq
    exact ⟨c, by simpa [or_assoc] using hc, rfl⟩

/-- Nine digits of a fraction count. -/
theorem nanosOfFraction_eq (hds : ∀ d ∈ ds, isDigit d = true) :
    nanosOfFraction ds = digitsValue ds * Nat.pow 10 9 / Nat.pow 10 ds.length := by
  have hpow : ∀ {m n : Nat}, n ≤ m → Nat.pow 10 m = Nat.pow 10 (m - n) * Nat.pow 10 n :=
    fun h => (congrArg (Nat.pow 10) (Nat.sub_add_cancel h).symm).trans (Nat.pow_add 10 _ _)
  have hpos : ∀ n : Nat, 0 < Nat.pow 10 n := fun n => Nat.pow_pos (by decide)
  rw [nanosOfFraction]
  rcases Nat.le_total ds.length 9 with hle | hle
  · -- the digits that are missing are zeros
    rw [List.take_of_length_le hle, hpow hle, ← Nat.mul_assoc, Nat.mul_div_cancel _ (hpos _)]
  · -- the digits past the ninth are worth less than one nanosecond
    have hsplit : digitsValue ds =
        digitsValue (ds.drop 9) + digitsValue (ds.take 9) * Nat.pow 10 (ds.length - 9) := by
      rw [Nat.add_comm, ← List.length_drop, ← digitsValue_append, List.take_append_drop]
    have hlt : digitsValue (ds.drop 9) < Nat.pow 10 (ds.length - 9) := by
      rw [← List.length_drop]
      exact digitsValue_lt fun d hd => hds d (List.mem_of_mem_drop hd)
    rw [List.length_take_of_le hle, Nat.sub_self, hpow hle, hsplit,
      Nat.mul_div_mul_right _ _ (hpos 9), Nat.add_mul_div_right _ _ (hpos _),
      Nat.div_eq_of_lt hlt, Nat.zero_add]
    exact Nat.mul_one _

theorem fraction?_append {f : Form} (h : ∀ ds ∈ f.fraction, ds ≠ [] ∧ ∀ d ∈ ds, isDigit d = true)
    (hrest : ∀ c ∈ rest.head?, isDigit c = false ∧ c ≠ '.') :
    fraction? (f.fractionText ++ rest) = some (f.nanos, rest) := by
  rw [Form.fractionText, Form.nanos]
  cases hf : f.fraction with
  | none =>
    show fraction? rest = some (0, rest)
    unfold fraction?
    split
    · exact absurd rfl (hrest '.' rfl).2
    · rfl
  | some ds =>
    obtain ⟨hne, hds⟩ := h ds hf
    show fraction? ('.' :: (ds ++ rest)) = some (_, rest)
    rw [fraction?, spanDigits_append hds fun c hc => (hrest c hc).1]
    simp [hne, nanosOfFraction_eq hds]

theorem of_fraction?_eq_some (h : fraction? cs = some (v, rest)) :
    ∃ fraction : Option (List Char),
      (∀ ds ∈ fraction, ds ≠ [] ∧ ∀ d ∈ ds, isDigit d = true) ∧
        cs = fraction.elim [] ('.' :: ·) ++ rest ∧
        v = fraction.elim 0 fun ds => digitsValue ds * Nat.pow 10 9 / Nat.pow 10 ds.length := by
  unfold fraction? at h
  split at h
  · rename_i cs
    cases hspan : spanDigits cs with
    | mk ds tail =>
      obtain ⟨rfl, hds⟩ := of_spanDigits_eq hspan
      rw [hspan] at h
      obtain ⟨hne, heq⟩ := Option.ite_none_left_eq_some.1 h
      cases heq
      refine ⟨some ds, ?_, rfl, nanosOfFraction_eq hds⟩
      rintro _ ⟨⟩
      exact ⟨by simpa using hne, hds⟩
  · cases h
    exact ⟨none, nofun, rfl, rfl⟩

/-! ## Zones -/

theorem offset?_append {z : Zone} (h : z.IsProper) (rest : List Char) :
    offset? (z.text ++ rest) = some (z.minutesEast, rest) := by
  cases z with
  | utc letter => exact if_pos (by simpa [Zone.IsProper] using h)
  | offset sign hours minutes =>
    obtain ⟨hsign, hhours, hminutes, hday, hhour⟩ := h
    have hutc : sign ≠ 'Z' ∧ sign ≠ 'z' := by
      rcases hsign with rfl | rfl | rfl <;> decide
    have hsigns : (sign = '+' || sign = '-' || sign = '\u2212') = true := by
      simpa [or_assoc] using hsign
    simp only [Zone.text, List.cons_append, List.append_assoc, offset?]
    rw [if_neg (by simpa using hutc), if_pos hsigns]
    simp [fixedDigits?_append hhours, literal?_cons, fixedDigits?_append hminutes, hday, hhour,
      Zone.minutesEast]

theorem of_offset?_eq_some {m : Int} (h : offset? cs = some (m, rest)) :
    ∃ z : Zone, z.IsProper ∧ cs = z.text ++ rest ∧ m = z.minutesEast := by
  cases cs with
  | nil => cases h
  | cons sign cs =>
    rw [offset?] at h
    split at h
    · rename_i hletter
      cases h
      exact ⟨.utc sign, by simpa [Zone.IsProper] using hletter, rfl, rfl⟩
    · obtain ⟨hsign, h⟩ := Option.ite_none_right_eq_some.1 h
      simp only [Option.bind_eq_bind, Option.bind_eq_some_iff, Prod.exists] at h
      obtain ⟨_, _, hread, _, hcolon, _, _, hread', h⟩ := h
      obtain ⟨hours, hhours, rfl, rfl⟩ := of_fixedDigits?_eq_some hread
      obtain rfl := of_literal?_eq_some hcolon
      obtain ⟨minutes, hminutes, rfl, rfl⟩ := of_fixedDigits?_eq_some hread'
      obtain ⟨hvalid, heq⟩ := Option.ite_none_right_eq_some.1 h
      cases heq
      have hvalid : digitsValue hours < 24 ∧ digitsValue minutes < 60 := by simpa using hvalid
      refine ⟨.offset sign hours minutes,
        ⟨by simpa [or_assoc] using hsign, hhours, hminutes, hvalid⟩, ?_, rfl⟩
      simp [Zone.text]

theorem Zone.IsProper.head? {z : Zone} (h : z.IsProper) :
    ∀ c ∈ z.text.head?, isDigit c = false ∧ c ≠ '.' := by
  rintro c hc
  cases z with
  | utc letter =>
    cases hc
    rcases h with rfl | rfl <;> decide
  | offset sign hours minutes =>
    cases hc
    rcases h.1 with rfl | rfl | rfl <;> decide

/-! ## Reading the whole -/

theorem stamp?_text {f : Form} (h : f.IsProper) : stamp? f.text = some f.stamp := by
  have hzone := offset?_append h.zone []
  rw [List.append_nil] at hzone
  rw [stamp?, Form.text]
  -- each part is read up to where the next one begins
  refine Option.bind_eq_some_iff.2 ⟨_, fixedDigits?_append h.year _, ?_⟩
  refine Option.bind_eq_some_iff.2 ⟨_, literal?_cons .., ?_⟩
  refine Option.bind_eq_some_iff.2 ⟨_, fixedDigits?_append h.month _, ?_⟩
  refine Option.bind_eq_some_iff.2 ⟨_, literal?_cons .., ?_⟩
  refine Option.bind_eq_some_iff.2 ⟨_, fixedDigits?_append h.day _, ?_⟩
  refine Option.bind_eq_some_iff.2 ⟨_, separator?_cons h.separator _, ?_⟩
  refine Option.bind_eq_some_iff.2 ⟨_, fixedDigits?_append h.hour _, ?_⟩
  refine Option.bind_eq_some_iff.2 ⟨_, literal?_cons .., ?_⟩
  refine Option.bind_eq_some_iff.2 ⟨_, fixedDigits?_append h.minute _, ?_⟩
  refine Option.bind_eq_some_iff.2 ⟨_, literal?_cons .., ?_⟩
  refine Option.bind_eq_some_iff.2 ⟨_, fixedDigits?_append h.second _, ?_⟩
  refine Option.bind_eq_some_iff.2 ⟨_, fraction?_append h.fraction h.zone.head?, ?_⟩
  refine Option.bind_eq_some_iff.2 ⟨_, hzone, ?_⟩
  exact if_pos h.valid

theorem denotes_of_stamp?_eq_some {s : Stamp} (h : stamp? cs = some s) : Denotes cs s := by
  obtain ⟨⟨_, _⟩, readYear, h⟩ := Option.bind_eq_some_iff.1 h
  obtain ⟨_, readDash, h⟩ := Option.bind_eq_some_iff.1 h
  obtain ⟨⟨_, _⟩, readMonth, h⟩ := Option.bind_eq_some_iff.1 h
  obtain ⟨_, readDash', h⟩ := Option.bind_eq_some_iff.1 h
  obtain ⟨⟨_, _⟩, readDay, h⟩ := Option.bind_eq_some_iff.1 h
  obtain ⟨_, readSeparator, h⟩ := Option.bind_eq_some_iff.1 h
  obtain ⟨⟨_, _⟩, readHour, h⟩ := Option.bind_eq_some_iff.1 h
  obtain ⟨_, readColon, h⟩ := Option.bind_eq_some_iff.1 h
  obtain ⟨⟨_, _⟩, readMinute, h⟩ := Option.bind_eq_some_iff.1 h
  obtain ⟨_, readColon', h⟩ := Option.bind_eq_some_iff.1 h
  obtain ⟨⟨_, _⟩, readSecond, h⟩ := Option.bind_eq_some_iff.1 h
  obtain ⟨⟨_, _⟩, readFraction, h⟩ := Option.bind_eq_some_iff.1 h
  obtain ⟨⟨_, _⟩, readZone, h⟩ := Option.bind_eq_some_iff.1 h
  -- every read part gives back the text it was read from
  obtain ⟨year, hyear, rfl, rfl⟩ := of_fixedDigits?_eq_some readYear
  obtain rfl := of_literal?_eq_some readDash
  obtain ⟨month, hmonth, rfl, rfl⟩ := of_fixedDigits?_eq_some readMonth
  obtain rfl := of_literal?_eq_some readDash'
  obtain ⟨day, hday, rfl, rfl⟩ := of_fixedDigits?_eq_some readDay
  obtain ⟨separator, hseparator, rfl⟩ := of_separator?_eq_some readSeparator
  obtain ⟨hour, hhour, rfl, rfl⟩ := of_fixedDigits?_eq_some readHour
  obtain rfl := of_literal?_eq_some readColon
  obtain ⟨minute, hminute, rfl, rfl⟩ := of_fixedDigits?_eq_some readMinute
  obtain rfl := of_literal?_eq_some readColon'
  obtain ⟨second, hsecond, rfl, rfl⟩ := of_fixedDigits?_eq_some readSecond
  obtain ⟨fraction, hfraction, rfl, rfl⟩ := of_fraction?_eq_some readFraction
  obtain ⟨zone, hzone, rfl, rfl⟩ := of_offset?_eq_some readZone
  obtain ⟨hvalid, heq⟩ := Option.ite_none_right_eq_some.1 h
  rw [Bool.and_eq_true, List.isEmpty_iff] at hvalid
  obtain ⟨rfl, hvalid⟩ := hvalid
  refine ⟨⟨year, month, day, separator, hour, minute, second, fraction, zone⟩,
    ⟨hyear, hmonth, hday, hseparator, hhour, hminute, hsecond, hfraction, hzone, hvalid⟩, ?_,
    Option.some.inj heq⟩
  rw [List.append_nil]
  rfl

/-- The texts that are read, and what is read. -/
theorem stamp?_eq_some_iff {s : Stamp} : stamp? cs = some s ↔ Denotes cs s := by
  refine ⟨denotes_of_stamp?_eq_some, ?_⟩
  rintro ⟨f, hf, rfl, rfl⟩
  exact stamp?_text hf

/-! ## The texts of instants -/

theorem areDigits_padded {width : Nat} (hwidth : 0 < width) (hn : n < Nat.pow 10 width) :
    AreDigits width (padded width n) := by
  have hle : (Nat.toDigits 10 n).length ≤ width :=
    (Nat.length_toDigits_le_iff (by decide) hwidth).2 hn
  refine ⟨?_, fun d hd => ?_⟩
  · rw [padded, List.length_append, List.length_replicate, Nat.sub_add_cancel hle]
  · rcases List.mem_append.1 hd with hd | hd
    · rw [(List.mem_replicate.1 hd).2]
      rfl
    · exact isDigit_of_mem_toDigits hd

theorem digitsValue_padded (width n : Nat) : digitsValue (padded width n) = n := by
  rw [padded, digitsValue_zeros_append, digitsValue_toDigits]

/-- The fewest digits that are exact. -/
def fractionDigits (nanos : Nat) : Option (List Char) :=
  if nanos = 0 then none
  else if nanos % 1000000 = 0 then some (padded 3 (nanos / 1000000))
  else if nanos % 1000 = 0 then some (padded 6 (nanos / 1000))
  else some (padded 9 nanos)

/-- The parts of an instant's own text. -/
def formOf (t : Instant) : Form :=
  let date := Date.ofDayNumber (t.toInt / 1000000000 / 86400)
  let second := (t.toInt / 1000000000 % 86400).toNat
  { year := padded 4 date.year.toNat
    month := padded 2 date.month
    day := padded 2 date.day
    separator := 'T'
    hour := padded 2 (second / 3600)
    minute := padded 2 (second / 60 % 60)
    second := padded 2 (second % 60)
    fraction := fractionDigits (t.toInt % 1000000000).toNat
    zone := .utc 'Z' }

theorem fractionText_eq (nanos : Nat) :
    fractionText nanos = (fractionDigits nanos).elim [] ('.' :: ·) := by
  rw [fractionText, fractionDigits]
  split
  · rfl
  · split
    · rfl
    · split <;> rfl

theorem text_formOf (t : Instant) : (formOf t).text = render t := by
  simp only [Form.text, Form.fractionText, formOf, render, dateText, clockText, fractionText_eq,
    Zone.text, List.append_assoc, List.cons_append]

/-- Some digits of a fraction are worth `scale` nanoseconds for each unit of their last place. -/
theorem padded_fraction {width scale k : Nat} (hwidth : 0 < width) (hk : k < Nat.pow 10 width)
    (hscale : Nat.pow 10 9 = scale * Nat.pow 10 width) :
    (padded width k ≠ [] ∧ ∀ d ∈ padded width k, isDigit d = true) ∧
      digitsValue (padded width k) * Nat.pow 10 9 / Nat.pow 10 (padded width k).length =
        k * scale := by
  obtain ⟨hlength, hdigits⟩ := areDigits_padded hwidth hk
  have hne : padded width k ≠ [] := List.ne_nil_of_length_pos (by rwa [hlength])
  refine ⟨⟨hne, hdigits⟩, ?_⟩
  rw [digitsValue_padded, hlength, hscale, ← Nat.mul_assoc]
  exact Nat.mul_div_cancel _ (Nat.pow_pos (by decide))

/-- The digits are exact. -/
theorem of_mem_fractionDigits {nanos : Nat} (hnanos : nanos < 1000000000)
    (hds : ds ∈ fractionDigits nanos) : (ds ≠ [] ∧ ∀ d ∈ ds, isDigit d = true) ∧
      digitsValue ds * Nat.pow 10 9 / Nat.pow 10 ds.length = nanos := by
  rw [Option.mem_def, fractionDigits] at hds
  obtain ⟨-, hds⟩ := Option.ite_none_left_eq_some.1 hds
  split at hds
  · rename_i hmillis
    cases hds
    have hk : nanos / 1000000 < Nat.pow 10 3 := Nat.div_lt_of_lt_mul hnanos
    have hfraction := padded_fraction (by decide) hk (rfl : _ = 1000000 * Nat.pow 10 3)
    rwa [Nat.div_mul_cancel (Nat.dvd_of_mod_eq_zero hmillis)] at hfraction
  · split at hds
    · rename_i hmicros
      cases hds
      have hk : nanos / 1000 < Nat.pow 10 6 := Nat.div_lt_of_lt_mul hnanos
      have hfraction := padded_fraction (by decide) hk (rfl : _ = 1000 * Nat.pow 10 6)
      rwa [Nat.div_mul_cancel (Nat.dvd_of_mod_eq_zero hmicros)] at hfraction
    · cases hds
      have hfraction := padded_fraction (by decide) (show nanos < Nat.pow 10 9 from hnanos)
        (rfl : _ = 1 * Nat.pow 10 9)
      rwa [Nat.mul_one] at hfraction

theorem elim_fractionDigits {nanos : Nat} (hnanos : nanos < 1000000000) :
    (fractionDigits nanos).elim 0
      (fun ds => digitsValue ds * Nat.pow 10 9 / Nat.pow 10 ds.length) = nanos := by
  cases hds : fractionDigits nanos with
  | none =>
    rw [fractionDigits] at hds
    by_cases hzero : nanos = 0
    · exact hzero.symm
    · rw [if_neg hzero] at hds
      split at hds
      · cases hds
      · split at hds <;> cases hds
  | some ds => exact (of_mem_fractionDigits hnanos hds).2

/-- Instants lie in the years that have four digits. -/
theorem year_bounds (t : Instant) :
    0 ≤ (Date.ofDayNumber (t.toInt / 1000000000 / 86400)).year ∧
      (Date.ofDayNumber (t.toInt / 1000000000 / 86400)).year < 10000 := by
  have hbounds : -9223372036854775808 ≤ t.toInt ∧ t.toInt ≤ 9223372036854775807 := t.bounds
  obtain ⟨hyear, hnext⟩ := mem_yearOfDay (t.toInt / 1000000000 / 86400 + epochDay)
  rw [Date.ofDayNumber]
  dsimp only
  -- the first days of the years 0 and 10000 are further away than any instant
  generalize yearOfDay (t.toInt / 1000000000 / 86400 + epochDay) = year at hyear hnext ⊢
  unfold daysBeforeYear epochDay at hyear hnext
  omega

theorem stamp_formOf (t : Instant) :
    (formOf t).stamp =
      { date := Date.ofDayNumber (t.toInt / 1000000000 / 86400)
        hour := (t.toInt / 1000000000 % 86400).toNat / 3600
        minute := (t.toInt / 1000000000 % 86400).toNat / 60 % 60
        second := (t.toInt / 1000000000 % 86400).toNat % 60
        nanos := (t.toInt % 1000000000).toNat
        offsetMinutes := 0 } := by
  have hnanos : (t.toInt % 1000000000).toNat < 1000000000 := by omega
  have hyear : ((Date.ofDayNumber (t.toInt / 1000000000 / 86400)).year.toNat : Int) =
      (Date.ofDayNumber (t.toInt / 1000000000 / 86400)).year :=
    Int.toNat_of_nonneg (year_bounds t).1
  simp only [Form.stamp, Form.nanos, formOf, digitsValue_padded, elim_fractionDigits hnanos, hyear,
    Zone.minutesEast]

theorem isProper_formOf (t : Instant) : (formOf t).IsProper := by
  obtain ⟨hyear, hlast⟩ := year_bounds t
  obtain ⟨hdate, -⟩ := dayNumber_ofDayNumber (t.toInt / 1000000000 / 86400)
  have hsecond : (t.toInt / 1000000000 % 86400).toNat < 86400 := by omega
  have hnanos : (t.toInt % 1000000000).toNat < 1000000000 := by omega
  have hvalid : (formOf t).stamp.isValid = true := by
    rw [stamp_formOf]
    simp only [Stamp.isValid, hdate, Bool.true_and, Bool.and_eq_true, decide_eq_true_eq]
    omega
  obtain ⟨hmonth, hday⟩ := bounds_of_isValid hdate
  have htwo : ∀ {n : Nat}, n < 100 → AreDigits 2 (padded 2 n) :=
    fun hn => areDigits_padded (by decide) hn
  exact {
    year := areDigits_padded (by decide) (show _ < 10000 by omega)
    month := htwo (Nat.lt_of_le_of_lt hmonth (by decide))
    day := htwo (Nat.lt_of_le_of_lt hday (by decide))
    separator := .inl rfl
    hour := htwo (by omega)
    minute := htwo (by omega)
    second := htwo (by omega)
    fraction := fun ds hds => (of_mem_fractionDigits hnanos hds).1
    zone := .inl rfl
    valid := hvalid }

theorem toInt_stamp_formOf (t : Instant) : (formOf t).stamp.toInt = t.toInt := by
  rw [stamp_formOf, Stamp.toInt, (dayNumber_ofDayNumber _).2]
  dsimp only
  omega

/-- The text of an instant stands for that instant. -/
theorem exists_denotes_render (t : Instant) : ∃ s, Denotes (render t) s ∧ s.toInt = t.toInt :=
  ⟨(formOf t).stamp, ⟨formOf t, isProper_formOf t, text_formOf t, rfl⟩, toInt_stamp_formOf t⟩

end Rfc3339

namespace Instant

theorem ofInt?_toInt (t : Instant) : ofInt? t.toInt = some t := by
  rw [ofInt?, toInt, signedWord?_toInt]
  rfl

theorem ofText?_text (t : Instant) : ofText? t.text = some t := by
  obtain ⟨s, hs, hst⟩ := Rfc3339.exists_denotes_render t
  rw [ofText?, text, String.toList_ofList, Rfc3339.stamp?_eq_some_iff.2 hs, Option.map_some, hst,
    ofInt?_toInt]
  rfl

end Instant

end SeriesPipeline
