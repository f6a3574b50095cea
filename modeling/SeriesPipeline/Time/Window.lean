import SeriesPipeline.Time.Rfc3339

/-!
# Windows of time

A window holds the instants from its start up to, not including, its stop.
-/

namespace SeriesPipeline

structure Window where
  start : Instant
  stop : Instant
  deriving DecidableEq

namespace Window

/-- The window of one instant, for batches that no windowing has seen. -/
def instant (t : Instant) : Window := ⟨t, t.succ⟩

def contains (w : Window) (t : Instant) : Bool := w.start ≤ t && t < w.stop

def text (w : Window) : String := "[" ++ w.start.text ++ ", " ++ w.stop.text ++ ")"

/-- Windows are ordered by start, then by stop. -/
instance : Ord Window where
  compare v w := @compare _ lexOrd (v.start, v.stop) (w.start, w.stop)

instance : Std.TransOrd Window where
  eq_swap {_ _} := @Std.OrientedCmp.eq_swap _ (@compare (Instant × Instant) lexOrd) _ _ _
  isLE_trans {_ _ _} := @Std.TransCmp.isLE_trans _ (@compare (Instant × Instant) lexOrd) _ _ _ _

instance : Std.LawfulEqOrd Window where
  compare_self {_} := @Std.ReflCmp.compare_self _ (@compare (Instant × Instant) lexOrd) _ _
  eq_of_compare {v w} h := by
    have := @Std.LawfulEqCmp.eq_of_compare _ (@compare (Instant × Instant) lexOrd) _ _ _ h
    cases v; cases w; simp_all

end Window

end SeriesPipeline
