import SeriesPipeline.Json.Basic
import SeriesPipeline.Time.Rfc3339

/-!
# Dates and times of TOML documents

A date, a time of day, or both of them with an offset from UTC if there is one. Seconds may be left
out for zero, and nine digits of their fraction count. A leap second is second 60. What is read is
written again in one form, which has the seconds but no zeros at the end of a fraction.
-/

namespace SeriesPipeline.Toml

open Calendar Rfc3339 Text

structure ClockTime where
  hour : Nat
  minute : Nat
  second : Nat
  nanos : Nat

inductive Offset where
  | utc
  | east (minutes : Int)

inductive DateTime where
  | date (d : Date)
  | time (t : ClockTime)
  | both (d : Date) (t : ClockTime) (offset : Option Offset)

def ClockTime.isValid (t : ClockTime) : Bool :=
  t.hour < 24 && t.minute < 60 && t.second ≤ 60

namespace DateTime

def date? (cs : List Char) : Option (Date × List Char) := do
  let (year, cs) ← fixedDigits? 4 cs
  let cs ← literal? '-' cs
  let (month, cs) ← fixedDigits? 2 cs
  let cs ← literal? '-' cs
  let (day, cs) ← fixedDigits? 2 cs
  let d : Date := ⟨year, month, day⟩
  if d.isValid then some (d, cs) else none

/-- The seconds after a colon and their nanoseconds, or zero seconds. -/
def seconds? : List Char → Option (Nat × Nat × List Char)
  | ':' :: cs => do
    let (second, cs) ← fixedDigits? 2 cs
    let (nanos, cs) ← fraction? cs
    return (second, nanos, cs)
  | cs => some (0, 0, cs)

def time? (cs : List Char) : Option (ClockTime × List Char) := do
  let (hour, cs) ← fixedDigits? 2 cs
  let cs ← literal? ':' cs
  let (minute, cs) ← fixedDigits? 2 cs
  let (second, nanos, cs) ← seconds? cs
  let t : ClockTime := ⟨hour, minute, second, nanos⟩
  if t.isValid then some (t, cs) else none

/-- An offset that takes up the whole text, or nothing at all. -/
def offset? (cs : List Char) : Option (Option Offset) :=
  match cs with
  | [] => some none
  | ['Z'] | ['z'] => some (some .utc)
  | sign :: rest => do
    let (hours, rest) ← fixedDigits? 2 rest
    let rest ← literal? ':' rest
    let (minutes, rest) ← fixedDigits? 2 rest
    let east : Int := hours * 60 + minutes
    if !rest.isEmpty || 24 ≤ hours || 60 ≤ minutes then none
    else if sign = '+' then some (some (.east east))
    else if sign = '-' then some (some (.east (-east)))
    else none

def ofChars? (cs : List Char) : Option DateTime :=
  match date? cs with
  | some (d, []) => some (.date d)
  | some (d, rest) => do
    let (t, rest) ← time? (← separator? rest)
    return .both d t (← offset? rest)
  | none =>
    match time? cs with
    | some (t, []) => some (.time t)
    | _ => none

def fractionText (nanos : Nat) : List Char :=
  if nanos = 0 then []
  else '.' :: ((padded 9 nanos).reverse.dropWhile (· = '0')).reverse

def timeText (t : ClockTime) : List Char :=
  padded 2 t.hour ++ ':' :: padded 2 t.minute ++ ':' :: padded 2 t.second ++ fractionText t.nanos

def offsetText : Offset → List Char
  | .utc => ['Z']
  | .east minutes =>
    (if minutes < 0 then '-' else '+') :: padded 2 (minutes.natAbs / 60) ++
      ':' :: padded 2 (minutes.natAbs % 60)

def chars : DateTime → List Char
  | .date d => dateText d
  | .time t => timeText t
  | .both d t offset =>
    dateText d ++ 'T' :: timeText t ++
      match offset with
      | some o => offsetText o
      | none => []

/-- The key of the object that stands for a date or time. -/
def key : String := "$__toml_private_datetime"

/-- An object whose one field has the text. -/
def toJson (t : DateTime) : Json := .object [(key, .text (String.ofList t.chars))]

end DateTime

end SeriesPipeline.Toml
