import Mathlib.Order.MinMax
import SeriesPipeline.Time.Instant

/-!
# The order of instants

Instants are ordered as the integers they stand for, and clamping an integer that is in range
gives the instant at that integer. A span that is not zero moves instants.
-/

namespace SeriesPipeline

theorem Span.reach_pos {d : Span} (h : 1 ≤ d.nanos) : 0 < d.reach := by
  have hlongest : longest = 9223372036854775807 := by decide
  rw [reach]
  omega

namespace Instant

instance : LinearOrder Instant where
  le_refl t := Int.le_refl t.toInt
  le_trans _ _ _ h h' := Int.le_trans h h'
  lt_iff_le_not_ge s t := by
    simp only [lt_def, le_def]
    omega
  le_antisymm _ _ h h' := toInt_inj.1 (Int.le_antisymm h h')
  le_total s t := Int.le_total s.toInt t.toInt
  toDecidableLE := inferInstance
  toDecidableLT := inferInstance
  toDecidableEq := inferInstance
  compare_eq_compareOfLessAndEq s t := by
    show compareOfLessAndEq s.nanos t.nanos = compareOfLessAndEq s t
    have hlt : s.nanos < t.nanos ↔ s < t := Int64.lt_iff_toInt_lt
    have heq : s.nanos = t.nanos ↔ s = t := by rw [← Int64.toInt_inj, ← toInt_inj]; rfl
    simp only [compareOfLessAndEq, hlt, heq]

theorem toInt_clamp {n : Int} (hlo : Int64.minValue.toInt ≤ n) (hhi : n ≤ Int64.maxValue.toInt) :
    (clamp n).toInt = n :=
  Int64.toInt_ofIntClamp hlo hhi

/-- Out of range, an integer is clamped to the bound next to it. -/
theorem toInt_clamp_eq (n : Int) :
    (clamp n).toInt = max Int64.minValue.toInt (min n Int64.maxValue.toInt) := by
  have hrange : Int64.minValue.toInt ≤ Int64.maxValue.toInt := by decide
  by_cases hlo : Int64.minValue.toInt ≤ n
  · by_cases hhi : n ≤ Int64.maxValue.toInt
    · rw [toInt_clamp hlo hhi]
      omega
    · have hmax : clamp n = greatest := congrArg mk ((dif_pos hlo).trans (dif_neg hhi))
      rw [hmax, show greatest.toInt = Int64.maxValue.toInt from rfl]
      omega
  · have hmin : clamp n = least := congrArg mk (dif_neg hlo)
    rw [hmin, show least.toInt = Int64.minValue.toInt from rfl]
    omega

theorem clamp_le_clamp {m n : Int} (h : m ≤ n) : clamp m ≤ clamp n := by
  rw [le_def, toInt_clamp_eq, toInt_clamp_eq]
  omega

theorem succ_le_succ {s t : Instant} (h : s ≤ t) : s.succ ≤ t.succ :=
  clamp_le_clamp (Int.add_le_add_right h 1)

/-! ## The latest of some instants -/

theorem foldl_max_le_iff {ts : List Instant} {t u : Instant} :
    ts.foldl max t ≤ u ↔ t ≤ u ∧ ∀ s ∈ ts, s ≤ u := by
  induction ts generalizing t with
  | nil => exact (and_iff_left nofun).symm
  | cons s rest ih => rw [List.foldl_cons, ih, max_le_iff, List.forall_mem_cons, and_assoc]

theorem foldl_max_mem (ts : List Instant) (t : Instant) : ts.foldl max t ∈ t :: ts := by
  induction ts generalizing t with
  | nil => exact List.mem_singleton_self t
  | cons s rest ih =>
    rw [List.foldl_cons]
    rcases List.mem_cons.1 (ih (max t s)) with heq | hmem
    · rw [heq]
      rcases max_choice t s with hmax | hmax
      · rw [hmax]
        exact List.mem_cons_self
      · rw [hmax]
        exact List.mem_cons_of_mem _ List.mem_cons_self
    · exact List.mem_cons_of_mem _ (List.mem_cons_of_mem _ hmem)

end Instant

end SeriesPipeline
