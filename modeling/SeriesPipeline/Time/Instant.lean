import SeriesPipeline.Time.Span
import SeriesPipeline.Word

/-!
# Instants

An instant is a signed 64-bit count of nanoseconds since the epoch. Arithmetic is exact over the
integers and then cut to the range of instants.
-/

namespace SeriesPipeline

structure Instant where
  nanos : Int64
  deriving DecidableEq, Inhabited

namespace Instant

def toInt (t : Instant) : Int := t.nanos.toInt

instance : LE Instant := ⟨fun s t => s.toInt ≤ t.toInt⟩
instance : LT Instant := ⟨fun s t => s.toInt < t.toInt⟩
instance (s t : Instant) : Decidable (s ≤ t) := inferInstanceAs (Decidable (s.toInt ≤ t.toInt))
instance (s t : Instant) : Decidable (s < t) := inferInstanceAs (Decidable (s.toInt < t.toInt))
instance : Max Instant := maxOfLe
instance : Min Instant := minOfLe

instance : Ord Instant where
  compare s t := compare s.nanos t.nanos

instance : Std.TransOrd Instant where
  eq_swap {_ _} := @Std.OrientedCmp.eq_swap Int64 compare _ _ _
  isLE_trans {_ _ _} := @Std.TransCmp.isLE_trans Int64 compare _ _ _ _

instance : Std.LawfulEqOrd Instant where
  compare_self {_} := @Std.ReflCmp.compare_self Int64 compare _ _
  eq_of_compare {s t} h := by
    cases s; cases t
    exact congrArg Instant.mk (@Std.LawfulEqCmp.eq_of_compare Int64 compare _ _ _ h)

theorem le_def {s t : Instant} : s ≤ t ↔ s.toInt ≤ t.toInt := Iff.rfl

theorem lt_def {s t : Instant} : s < t ↔ s.toInt < t.toInt := Iff.rfl

theorem toInt_inj {s t : Instant} : s.toInt = t.toInt ↔ s = t := by
  cases s; cases t; simp [toInt, Int64.toInt_inj]

theorem bounds (t : Instant) :
    Int64.minValue.toInt ≤ t.toInt ∧ t.toInt ≤ Int64.maxValue.toInt :=
  ⟨t.nanos.minValue_le_toInt, t.nanos.toInt_le⟩

def epoch : Instant := ⟨0⟩

def least : Instant := ⟨Int64.minValue⟩

def greatest : Instant := ⟨Int64.maxValue⟩

/-- The instant nearest to `n` nanoseconds. -/
def clamp (n : Int) : Instant := ⟨Int64.ofIntClamp n⟩

/-- The instant at `n` nanoseconds, if there is one. -/
def ofInt? (n : Int) : Option Instant := (signedWord? n).map Instant.mk

theorem toInt_of_ofInt? {n : Int} {t : Instant} (h : ofInt? n = some t) : t.toInt = n := by
  obtain ⟨w, hw, rfl⟩ := Option.map_eq_some_iff.1 h
  exact toInt_of_signedWord? hw

def ofSeconds (s : Int64) : Instant := clamp (s.toInt * 1000000000)

/-- The instant right after, or the last one. -/
def succ (t : Instant) : Instant := clamp (t.toInt + 1)

def after (t : Instant) (d : Span) : Instant := clamp (t.toInt + d.reach)

def before (t : Instant) (d : Span) : Instant := clamp (t.toInt - d.reach)

/-- The last multiple of `step` at or before `t`; the least instant when that multiple lies
before it. A zero step changes nothing. -/
def floor (t : Instant) (step : Span) : Instant :=
  if step.reach = 0 then t else (ofInt? (t.toInt / step.reach * step.reach)).getD least

end Instant

end SeriesPipeline
