import Mathlib.Data.List.Sort
import Mathlib.Order.Defs.LinearOrder

/-!
# Stable orders

A list is put in stable order by a key when it is sorted by the key and items of one key keep the
order that they came in. There is only one way to do so, and merge sort does it.
-/

namespace SeriesPipeline

variable {α β κ : Type} [LinearOrder κ]

/-- `sorted` has the items of `l` in order of `key`, those of one key as they stand in `l`. -/
structure StablyOrdered (key : α → κ) (l sorted : List α) : Prop where
  perm : sorted.Perm l
  ordered : sorted.Pairwise fun a b => key a ≤ key b
  stable : ∀ k, sorted.filter (fun a => key a = k) = l.filter (fun a => key a = k)

/-- Merge sort never moves items of one key past each other. -/
theorem filter_mergeSort (key : α → κ) (l : List α) (k : κ) :
    (l.mergeSort (fun a b => decide (key a ≤ key b))).filter (fun a => key a = k) =
      l.filter (fun a => key a = k) := by
  set le : α → α → Bool := fun a b => decide (key a ≤ key b) with hle
  have hsub : (l.filter (fun a => key a = k)).Sublist (l.mergeSort le) := by
    refine List.sublist_mergeSort ?_ ?_ ?_ List.filter_sublist
    · intro a b c hab hbc
      simp only [hle, decide_eq_true_eq] at *
      exact hab.trans hbc
    · intro a b
      simp only [hle, Bool.or_eq_true, decide_eq_true_eq]
      exact le_total _ _
    · refine List.pairwise_of_forall_mem_list ?_
      intro a ha b hb
      simp only [List.mem_filter, decide_eq_true_eq] at ha hb
      simp only [hle, decide_eq_true_eq, ha.2, hb.2, le_refl]
  -- the items of one key are a part of the result, and there are as many of them before and after
  have hself := hsub.filter (fun a => key a = k)
  rw [List.filter_filter] at hself
  simp only [Bool.and_self] at hself
  refine (hself.eq_of_length ?_).symm
  exact ((List.mergeSort_perm l le).filter _).length_eq.symm

theorem stablyOrdered_mergeSort (key : α → κ) (l : List α) :
    StablyOrdered key l (l.mergeSort fun a b => decide (key a ≤ key b)) where
  perm := List.mergeSort_perm _ _
  ordered := by
    have h : (l.mergeSort fun a b => decide (key a ≤ key b)).Pairwise
        fun a b => decide (key a ≤ key b) = true := List.pairwise_mergeSort ?_ ?_ l
    · exact h.imp fun hab => of_decide_eq_true hab
    · intro a b c hab hbc
      simp only [decide_eq_true_eq] at *
      exact hab.trans hbc
    · intro a b
      simp only [Bool.or_eq_true, decide_eq_true_eq]
      exact le_total _ _
  stable := filter_mergeSort key l

/-- Sorted lists that agree on the items of every key are equal. -/
theorem eq_of_filter_eq {key : α → κ} {l m : List α}
    (hl : l.Pairwise fun a b => key a ≤ key b) (hm : m.Pairwise fun a b => key a ≤ key b)
    (h : ∀ k, l.filter (fun a => key a = k) = m.filter (fun a => key a = k)) : l = m := by
  induction l generalizing m with
  | nil =>
    cases m with
    | nil => rfl
    | cons b m =>
      have hb := h (key b)
      simp at hb
  | cons a l ih =>
    cases m with
    | nil =>
      have ha := h (key a)
      simp at ha
    | cons b m =>
      obtain ⟨hal, hltail⟩ := List.pairwise_cons.1 hl
      obtain ⟨hbm, hmtail⟩ := List.pairwise_cons.1 hm
      -- each head occurs in the other list, so neither key is below the other
      have hmem : ∀ c, c ∈ a :: l ↔ c ∈ b :: m := by
        intro c
        have hc : c ∈ (a :: l).filter (fun a => key a = key c) ↔
            c ∈ (b :: m).filter (fun a => key a = key c) := by rw [h]
        simpa only [List.mem_filter, decide_true, and_true] using hc
      have hba : key b ≤ key a := by
        rcases List.mem_cons.1 ((hmem a).1 List.mem_cons_self) with rfl | hb
        · exact le_refl _
        · exact hbm a hb
      have hab : key a ≤ key b := by
        rcases List.mem_cons.1 ((hmem b).2 List.mem_cons_self) with rfl | hb
        · exact le_refl _
        · exact hal b hb
      have hkey : key b = key a := le_antisymm hba hab
      have hhead := h (key a)
      rw [List.filter_cons_of_pos (by simp), List.filter_cons_of_pos (by simp [hkey])] at hhead
      obtain ⟨rfl, -⟩ := List.cons.inj hhead
      refine congrArg (a :: ·) (ih hltail hmtail fun k => ?_)
      have hk := h k
      rw [List.filter_cons, List.filter_cons] at hk
      split at hk
      · exact (List.cons.inj hk).2
      · exact hk

theorem StablyOrdered.unique {key : α → κ} {l m m' : List α} (h : StablyOrdered key l m)
    (h' : StablyOrdered key l m') : m = m' :=
  eq_of_filter_eq h.ordered h'.ordered fun k => (h.stable k).trans (h'.stable k).symm

end SeriesPipeline
