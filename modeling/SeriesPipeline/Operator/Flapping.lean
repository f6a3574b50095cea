import SeriesPipeline.Blueprint.Basic

/-!
# Flap detection

A detector remembers the latest levels of a group. It turns on when the rate of level changes among
them reaches the upper bound, and off again when the rate falls to the lower one.
-/

namespace SeriesPipeline

inductive Level where
  | ok
  | alerting
  deriving DecidableEq

def Level.text : Level → String
  | .ok => "OK"
  | .alerting => "ALERTING"

structure FlapDetector where
  bounds : FlapBounds
  capacity : Nat
  /-- Latest level last. -/
  history : List Level
  flapping : Bool

namespace FlapDetector

def new (bounds : FlapBounds) (capacity : Nat) : FlapDetector := ⟨bounds, capacity, [], false⟩

def changes (history : List Level) : Nat :=
  (history.zip history.tail).countP fun (a, b) => a ≠ b

/-- The percentage of neighbours in the history that differ. -/
def rateOf (history : List Level) : Float :=
  if history.length < 2 then 0.0
  else Float.ofNat (changes history) / Float.ofNat (history.length - 1) * 100.0

def rate (d : FlapDetector) : Float := rateOf d.history

def record (d : FlapDetector) (level : Level) : FlapDetector :=
  let kept := if d.history.length = d.capacity then d.history.tail else d.history
  let history := kept ++ [level]
  let rate := rateOf history
  let flapping := if d.flapping then !(rate ≤ d.bounds.low) else d.bounds.high ≤ rate
  { d with history := history, flapping := flapping }

end FlapDetector

end SeriesPipeline
