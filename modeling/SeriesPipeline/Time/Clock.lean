import SeriesPipeline.Time.Instant

/-!
# The logical clock

A clock is set by whoever drives a pipeline, and never goes back.
-/

namespace SeriesPipeline

structure Clock where
  now : Instant
  deriving DecidableEq

namespace Clock

def moves (c : Clock) (t : Instant) : Bool := c.now < t

/-- Sets the clock to `t` unless it stands there or later already. -/
def set (c : Clock) (t : Instant) : Clock := if c.moves t then ⟨t⟩ else c

/-- The time seen by someone who waits for `t`, once it has come. -/
def wait? (c : Clock) (t : Instant) : Option Instant := if t ≤ c.now then some c.now else none

end Clock

end SeriesPipeline
