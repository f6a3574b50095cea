import SeriesPipeline.Text.Numeral
import SeriesPipeline.Time.Instant
import SeriesPipeline.Time.Calendar

/-!
# RFC 3339 timestamps

Written times are in UTC and have the fewest of 0, 3, 6 or 9 fraction digits that are exact. Read
times may have any offset up to 23:59, any number of fraction digits, of which nine count, and a
leap second, which is one second after second 59. A time outside the range of instants is read as
the last instant.
-/

namespace SeriesPipeline

namespace Rfc3339

open Calendar Text

def padded (width : Nat) (n : Nat) : List Char :=
  let ds := Nat.toDigits 10 n
  List.replicate (width - ds.length) '0' ++ ds

def fractionText (nanos : Nat) : List Char :=
  if nanos = 0 then []
  else if nanos % 1000000 = 0 then '.' :: padded 3 (nanos / 1000000)
  else if nanos % 1000 = 0 then '.' :: padded 6 (nanos / 1000)
  else '.' :: padded 9 nanos

def dateText (d : Date) : List Char :=
  padded 4 d.year.toNat ++ '-' :: padded 2 d.month ++ '-' :: padded 2 d.day

def clockText (second : Nat) : List Char :=
  padded 2 (second / 3600) ++ ':' :: padded 2 (second / 60 % 60) ++ ':' :: padded 2 (second % 60)

def render (t : Instant) : List Char :=
  let seconds := t.toInt / 1000000000
  let nanos := (t.toInt % 1000000000).toNat
  let day := seconds / 86400
  let second := (seconds % 86400).toNat
  dateText (Date.ofDayNumber day) ++ 'T' :: clockText second ++ fractionText nanos ++ ['Z']

/-- Exactly `n` digits. -/
def fixedDigits? (n : Nat) (cs : List Char) : Option (Nat × List Char) :=
  let ds := cs.take n
  if ds.length = n && ds.all isDigit then some (digitsValue ds, cs.drop n) else none

def literal? (c : Char) : List Char → Option (List Char)
  | [] => none
  | d :: rest => if d = c then some rest else none

def separator? : List Char → Option (List Char)
  | [] => none
  | c :: rest => if c = 'T' || c = 't' || c = ' ' then some rest else none

/-- The nanoseconds of the digits after the point; digits past the ninth are dropped. -/
def nanosOfFraction (ds : List Char) : Nat :=
  let kept := ds.take 9
  digitsValue kept * Nat.pow 10 (9 - kept.length)

def fraction? (cs : List Char) : Option (Nat × List Char) :=
  match cs with
  | '.' :: rest =>
    let (ds, rest) := spanDigits rest
    if ds.isEmpty then none else some (nanosOfFraction ds, rest)
  | rest => some (0, rest)

/-- The minutes east of UTC. A minus may be the hyphen or the minus sign U+2212. -/
def offset? (cs : List Char) : Option (Int × List Char) :=
  match cs with
  | [] => none
  | sign :: rest =>
    if sign = 'Z' || sign = 'z' then some (0, rest)
    else if sign = '+' || sign = '-' || sign = '\u2212' then do
      let (hours, rest) ← fixedDigits? 2 rest
      let rest ← literal? ':' rest
      let (minutes, rest) ← fixedDigits? 2 rest
      if hours < 24 && minutes < 60 then
        let east : Int := hours * 60 + minutes
        some (if sign = '+' then east else -east, rest)
      else none
    else none

/-- A date, a time of day and an offset, each valid on its own. -/
structure Stamp where
  date : Date
  hour : Nat
  minute : Nat
  second : Nat
  nanos : Nat
  offsetMinutes : Int

def Stamp.isValid (s : Stamp) : Bool :=
  s.date.isValid && s.hour < 24 && s.minute < 60 && s.second ≤ 60

/-- Nanoseconds since the epoch, over all integers. -/
def Stamp.toInt (s : Stamp) : Int :=
  (s.date.dayNumber * 86400 + (s.hour * 3600 + s.minute * 60 + s.second : Nat)
    - s.offsetMinutes * 60) * 1000000000 + s.nanos

def stamp? (cs : List Char) : Option Stamp := do
  let (year, cs) ← fixedDigits? 4 cs
  let cs ← literal? '-' cs
  let (month, cs) ← fixedDigits? 2 cs
  let cs ← literal? '-' cs
  let (day, cs) ← fixedDigits? 2 cs
  let cs ← separator? cs
  let (hour, cs) ← fixedDigits? 2 cs
  let cs ← literal? ':' cs
  let (minute, cs) ← fixedDigits? 2 cs
  let cs ← literal? ':' cs
  let (second, cs) ← fixedDigits? 2 cs
  let (nanos, cs) ← fraction? cs
  let (offset, cs) ← offset? cs
  let s : Stamp := ⟨⟨year, month, day⟩, hour, minute, second, nanos, offset⟩
  if cs.isEmpty && s.isValid then some s else none

end Rfc3339

namespace Instant

def text (t : Instant) : String := String.ofList (Rfc3339.render t)

def ofText? (s : String) : Option Instant :=
  (Rfc3339.stamp? s.toList).map fun stamp => (ofInt? stamp.toInt).getD greatest

end Instant

end SeriesPipeline
