import SeriesPipeline.Proofs.StableOrder

/-!
# Ranks

An item has a rank in a list if enough items are not above it and enough are not below it. Items of
one rank have one key, whatever the list is ordered like, and sorting puts an item of each rank in
its position.
-/

namespace SeriesPipeline

variable {α κ : Type} [LinearOrder κ] {key : α → κ} {l l' : List α} {j k : Nat} {a b : α}

/-- Of the items of `l` in order of `key`, the item can be number `k`, counted from 0. -/
structure HasRank (key : α → κ) (l : List α) (k : Nat) (a : α) : Prop where
  mem : a ∈ l
  atMost : k + 1 ≤ l.countP fun b => key b ≤ key a
  atLeast : l.length - k ≤ l.countP fun b => key a ≤ key b

namespace HasRank

theorem of_perm (h : HasRank key l k a) (hl : l.Perm l') : HasRank key l' k a where
  mem := hl.mem_iff.1 h.mem
  atMost := hl.countP_eq _ ▸ h.atMost
  atLeast := hl.length_eq ▸ hl.countP_eq _ ▸ h.atLeast

/-- No more than `k` items are below the item of rank `k`. -/
theorem countP_lt_le (h : HasRank key l k a) : (l.countP fun b => key b < key a) ≤ k := by
  have hlength := List.length_eq_countP_add_countP (fun b => decide (key a ≤ key b)) (l := l)
  have hleast := h.atLeast
  have hk : k < l.length := Nat.lt_of_lt_of_le h.atMost List.countP_le_length
  simp only [decide_eq_true_eq, not_le] at hlength
  omega

/-- The item of a greater rank is not below. -/
theorem key_le (ha : HasRank key l j a) (hb : HasRank key l k b) (hjk : j ≤ k) : key a ≤ key b := by
  by_contra hnot
  -- otherwise all items that are not above `b` are below `a`
  have hbelow : (l.countP fun c => key c ≤ key b) ≤ l.countP fun c => key c < key a := by
    refine List.countP_mono_left fun c _ hc => ?_
    exact decide_eq_true ((of_decide_eq_true hc).trans_lt (not_le.1 hnot))
  have hmost := hb.atMost
  have hfew := ha.countP_lt_le
  omega

theorem key_eq (ha : HasRank key l k a) (hb : HasRank key l k b) : key a = key b :=
  le_antisymm (ha.key_le hb (Nat.le_refl k)) (hb.key_le ha (Nat.le_refl k))

/-- Sorting puts an item of rank `k` in position `k`. -/
theorem of_getElem?_mergeSort
    (h : (l.mergeSort fun a b => decide (key a ≤ key b))[k]? = some a) : HasRank key l k a := by
  obtain ⟨hperm, hordered, -⟩ := stablyOrdered_mergeSort key l
  generalize (l.mergeSort fun a b => decide (key a ≤ key b)) = sorted at h hperm hordered
  refine of_perm ?_ hperm
  obtain ⟨hk, hget⟩ := List.getElem?_eq_some_iff.1 h
  obtain ⟨front, back, hsorted, hfront⟩ :
      ∃ front back, sorted = front ++ a :: back ∧ front.length = k := by
    refine ⟨sorted.take k, sorted.drop (k + 1), ?_, List.length_take_of_le (Nat.le_of_lt hk)⟩
    rw [← hget, List.getElem_cons_drop, List.take_append_drop]
  subst hsorted hfront
  obtain ⟨-, hback, hacross⟩ := List.pairwise_append.1 hordered
  refine ⟨List.mem_of_getElem? h, ?_, ?_⟩
  · have hcount : (front.countP fun b => key b ≤ key a) = front.length := by
      refine List.countP_eq_length.2 fun b hb => decide_eq_true ?_
      exact hacross b hb a List.mem_cons_self
    rw [List.countP_append, List.countP_cons_of_pos (by simp), hcount]
    omega
  · have hcount : (back.countP fun b => key a ≤ key b) = back.length := by
      refine List.countP_eq_length.2 fun b hb => decide_eq_true ?_
      exact (List.pairwise_cons.1 hback).1 b hb
    rw [List.countP_append, List.countP_cons_of_pos (by simp), hcount, List.length_append,
      List.length_cons]
    omega

end HasRank

end SeriesPipeline
