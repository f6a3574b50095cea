import SeriesPipeline.Data.Batch

/-!
# Alignment of batches

Joins and unions put together the batches of one window and one set of tags.
-/

namespace SeriesPipeline

structure Alignment where
  window : Window
  tags : Tags
  deriving DecidableEq

namespace Alignment

/-- Alignments are ordered by window, then by tags. -/
instance : Ord Alignment where
  compare a b := @compare _ lexOrd (a.window, a.tags) (b.window, b.tags)

instance : Std.TransOrd Alignment where
  eq_swap {_ _} := @Std.OrientedCmp.eq_swap _ (@compare (Window × Tags) lexOrd) _ _ _
  isLE_trans {_ _ _} := @Std.TransCmp.isLE_trans _ (@compare (Window × Tags) lexOrd) _ _ _ _

instance : Std.LawfulEqOrd Alignment where
  compare_self {_} := @Std.ReflCmp.compare_self _ (@compare (Window × Tags) lexOrd) _ _
  eq_of_compare {a b} h := by
    have := @Std.LawfulEqCmp.eq_of_compare _ (@compare (Window × Tags) lexOrd) _ _ _ h
    cases a; cases b; simp_all

end Alignment

end SeriesPipeline
