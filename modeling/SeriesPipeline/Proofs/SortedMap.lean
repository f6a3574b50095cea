import Mathlib.Data.Finset.Card
import Mathlib.Data.List.Induction
import SeriesPipeline.SortedMap

/-!
# Laws of sorted maps

`get?` is the view: it says which entries a map has, and each operation is described by what it
does to look-ups. The size of a map is the number of its keys.
-/

namespace SeriesPipeline.SortedMap

variable {κ υ ω : Type} [Ord κ]

theorem lookup_append (k : κ) (l m : List (κ × υ)) :
    lookup k (l ++ m) = (lookup k l).or (lookup k m) := by
  induction l with
  | nil => rfl
  | cons e rest ih =>
    rw [List.cons_append, lookup, lookup, ih]
    split <;> rfl

section Lawful

variable [Std.LawfulEqOrd κ]

theorem compare_self_eq (k : κ) : compare k k = .eq := Std.ReflCmp.compare_self

theorem lookup_eq_some_iff {k : κ} {v : υ} {l : List (κ × υ)}
    (hl : l.Pairwise (fun a b => compare a.1 b.1 = .lt)) :
    lookup k l = some v ↔ (k, v) ∈ l := by
  induction l with
  | nil => simp [lookup]
  | cons e rest ih =>
    obtain ⟨k', v'⟩ := e
    obtain ⟨hhead, htail⟩ := List.pairwise_cons.1 hl
    rw [lookup, List.mem_cons]
    by_cases hk : compare k k' = .eq
    · have hkk : k = k' := Std.LawfulEqCmp.eq_of_compare hk
      subst hkk
      rw [if_pos hk]
      constructor
      · intro h
        cases h
        exact .inl rfl
      · rintro (h | h)
        · cases h
          rfl
        · -- keys increase, so no later entry has the key of the head
          have hlt := hhead _ h
          rw [compare_self_eq] at hlt
          cases hlt
    · rw [if_neg hk, ih htail]
      constructor
      · exact .inr
      · rintro (h | h)
        · cases h
          exact absurd (compare_self_eq k) hk
        · exact h

/-- The entries of one key in a list in key order. -/
theorem filter_key_eq [DecidableEq κ] {l : List (κ × υ)}
    (hl : l.Pairwise (fun a b => compare a.1 b.1 = .lt)) (k : κ) :
    l.filter (fun e => e.1 = k) = ((lookup k l).map (k, ·)).toList := by
  induction l with
  | nil => rfl
  | cons e rest ih =>
    obtain ⟨k', v⟩ := e
    obtain ⟨hhead, htail⟩ := List.pairwise_cons.1 hl
    rw [lookup, List.filter_cons]
    by_cases hk : k' = k
    · subst hk
      have hrest : rest.filter (fun e => e.1 = k') = [] := by
        rw [List.filter_eq_nil_iff]
        intro e he heq
        have hlt := hhead e he
        rw [of_decide_eq_true heq, compare_self_eq] at hlt
        cases hlt
      rw [if_pos (by simp), if_pos (compare_self_eq k'), hrest]
      rfl
    · have hne : compare k k' ≠ .eq := fun h => hk (Std.LawfulEqCmp.eq_of_compare h).symm
      rw [if_neg (by simpa using hk), if_neg hne, ih htail]

theorem get?_eq_some_iff {m : SortedMap κ υ} {k : κ} {v : υ} :
    m.get? k = some v ↔ (k, v) ∈ m.entries :=
  lookup_eq_some_iff m.sorted

theorem nodup_keys (m : SortedMap κ υ) : m.keys.Nodup := by
  refine List.pairwise_map.2 (m.sorted.imp ?_)
  intro a b hab heq
  rw [heq, compare_self_eq] at hab
  cases hab

/-- Maps are the same if all look-ups are. -/
theorem ext_get? [Std.OrientedOrd κ] {m n : SortedMap κ υ} (h : ∀ k, m.get? k = n.get? k) :
    m = n := by
  have hnodup : ∀ m : SortedMap κ υ, m.entries.Nodup := fun m =>
    List.Nodup.of_map Prod.fst m.nodup_keys
  have hperm : m.entries.Perm n.entries := by
    refine (List.perm_ext_iff_of_nodup (hnodup m) (hnodup n)).2 fun ⟨k, v⟩ => ?_
    rw [← get?_eq_some_iff, ← get?_eq_some_iff, h k]
  refine ext_entries (hperm.eq_of_pairwise (fun a b ha hb hab hba => ?_) m.sorted n.sorted)
  -- two entries of one map that come before each other
  rw [Std.OrientedCmp.gt_of_lt hab] at hba
  cases hba

theorem lookup_insertEntry [DecidableEq κ] (k k' : κ) (v : υ) (l : List (κ × υ)) :
    lookup k' (insertEntry k v l) = if k' = k then some v else lookup k' l := by
  have hself : ∀ rest, lookup k' ((k, v) :: rest) = if k' = k then some v else lookup k' rest := by
    intro rest
    rw [lookup]
    simp only [Std.LawfulEqCmp.compare_eq_iff_eq]
  induction l with
  | nil => exact hself []
  | cons e rest ih =>
    obtain ⟨j, w⟩ := e
    rw [insertEntry]
    split
    · exact hself _
    · rename_i heq
      have hkj : k = j := Std.LawfulEqCmp.eq_of_compare heq
      rw [hself, lookup]
      simp only [Std.LawfulEqCmp.compare_eq_iff_eq]
      split
      · rfl
      · rename_i hne
        rw [if_neg (fun h => hne (h.trans hkj.symm))]
    · rename_i hgt
      rw [lookup, lookup, ih]
      simp only [Std.LawfulEqCmp.compare_eq_iff_eq]
      have hkj : k ≠ j := by
        rintro rfl
        rw [compare_self_eq] at hgt
        cases hgt
      split
      · rename_i hj
        rw [if_neg (fun h => hkj (h.symm.trans hj))]
      · rfl

theorem get?_insert [Std.TransOrd κ] [DecidableEq κ] (m : SortedMap κ υ) (k k' : κ) (v : υ) :
    (m.insert k v).get? k' = if k' = k then some v else m.get? k' :=
  lookup_insertEntry k k' v m.entries

theorem get?_filter (m : SortedMap κ υ) (p : κ → υ → Bool) (k : κ) :
    (m.filter p).get? k = (m.get? k).filter (p k) := by
  apply Option.ext
  intro v
  rw [Option.filter_eq_some_iff, get?_eq_some_iff, get?_eq_some_iff]
  simp only [filter, List.mem_filter]

theorem get?_erase [DecidableEq κ] (m : SortedMap κ υ) (k k' : κ) :
    (m.erase k).get? k' = if k' = k then none else m.get? k' := by
  rw [erase, get?_filter]
  by_cases h : k' = k
  · subst h
    rw [if_pos rfl]
    cases m.get? k' <;> simp [Option.filter]
  · have hne : compare k k' ≠ .eq := fun hc => h (Std.LawfulEqCmp.eq_of_compare hc).symm
    rw [if_neg h]
    cases m.get? k' <;> simp [Option.filter, hne]

theorem lookup_map (f : κ → υ → ω) (k : κ) (l : List (κ × υ)) :
    lookup k (l.map fun e => (e.1, f e.1 e.2)) = (lookup k l).map (f k) := by
  induction l with
  | nil => rfl
  | cons e rest ih =>
    rw [List.map_cons, lookup, lookup, ih]
    split
    · rename_i heq
      rw [Std.LawfulEqCmp.eq_of_compare heq]
      rfl
    · rfl

theorem get?_map (m : SortedMap κ υ) (f : κ → υ → ω) (k : κ) :
    (m.map f).get? k = (m.get? k).map (f k) :=
  lookup_map f k m.entries

/-- What only the entry of one key gives, all entries give. -/
theorem flatMap_entries [DecidableEq κ] {α : Type} (m : SortedMap κ υ) (k : κ)
    (f : κ × υ → List α) (h : ∀ e ∈ m.entries, e.1 ≠ k → f e = []) :
    m.entries.flatMap f = (m.get? k).elim [] fun v => f (k, v) := by
  have hfilter : m.entries.flatMap f = (m.entries.filter (fun e => e.1 = k)).flatMap f := by
    generalize m.entries = l at h
    induction l with
    | nil => rfl
    | cons e rest ih =>
      obtain ⟨he, hrest⟩ := List.forall_mem_cons.1 h
      rw [List.flatMap_cons, ih hrest, List.filter_cons]
      split
      · rfl
      · rename_i hne
        rw [he (by simpa using hne)]
        rfl
  rw [hfilter, filter_key_eq m.sorted]
  show (((m.get? k).map (k, ·)).toList).flatMap f = _
  cases m.get? k with
  | none => rfl
  | some v => exact List.append_nil _

end Lawful

/-! ## Maps from their entries -/

section Entries

variable [Std.TransOrd κ]

theorem insertEntry_eq_append {k : κ} {v : υ} {l : List (κ × υ)}
    (h : ∀ e ∈ l, compare e.1 k = .lt) : insertEntry k v l = l ++ [(k, v)] := by
  induction l with
  | nil => rfl
  | cons e rest ih =>
    obtain ⟨hlt, hrest⟩ := List.forall_mem_cons.1 h
    rw [insertEntry, Std.OrientedCmp.gt_of_lt hlt, ih hrest]
    rfl

theorem entries_foldl_insert {m : SortedMap κ υ} {l : List (κ × υ)}
    (h : (m.entries ++ l).Pairwise fun a b => compare a.1 b.1 = .lt) :
    (l.foldl (fun m e => m.insert e.1 e.2) m).entries = m.entries ++ l := by
  induction l generalizing m with
  | nil => exact (List.append_nil _).symm
  | cons e rest ih =>
    have hlast : ∀ e' ∈ m.entries, compare e'.1 e.1 = .lt := fun e' he' =>
      (List.pairwise_append.1 h).2.2 e' he' e List.mem_cons_self
    have hinsert : (m.insert e.1 e.2).entries = m.entries ++ [e] := insertEntry_eq_append hlast
    rw [List.foldl_cons, ih (by rwa [hinsert, List.append_assoc]), hinsert, List.append_assoc]
    rfl

theorem ofList_entries (m : SortedMap κ υ) : ofList m.entries = m :=
  ext_entries (entries_foldl_insert m.sorted)

theorem ofList_concat (l : List (κ × υ)) (e : κ × υ) :
    ofList (l ++ [e]) = (ofList l).insert e.1 e.2 :=
  List.foldl_concat ..

/-- The value under a key is that of the last entry with the key. -/
theorem get?_ofList_eq_some_iff [Std.LawfulEqOrd κ] [DecidableEq κ] {l : List (κ × υ)} {k : κ}
    {v : υ} : (ofList l).get? k = some v ↔
      ∃ i : Nat, l[i]? = some (k, v) ∧ ∀ (j : Nat) w, i < j → l[j]? ≠ some (k, w) := by
  induction l using List.reverseRecOn with
  | nil => exact ⟨nofun, fun ⟨_, h, _⟩ => nomatch h⟩
  | append_singleton l e ih =>
    obtain ⟨k', v'⟩ := e
    rw [ofList_concat, get?_insert]
    by_cases hk : k = k'
    · subst hk
      rw [if_pos rfl, Option.some_inj]
      constructor
      · rintro rfl
        refine ⟨l.length, List.getElem?_concat_length, fun j w hj hw => ?_⟩
        have hlt := (List.getElem?_eq_some_iff.1 hw).1
        rw [List.length_append, List.length_singleton] at hlt
        omega
      · rintro ⟨i, hi, hlast⟩
        have hlength : i = l.length := by
          by_contra hne
          have hlt := (List.getElem?_eq_some_iff.1 hi).1
          rw [List.length_append, List.length_singleton] at hlt
          exact hlast l.length v' (by omega) List.getElem?_concat_length
        rw [hlength, List.getElem?_concat_length] at hi
        cases hi
        rfl
    · -- an entry with another key is not the one that counts
      have hat : ∀ (i : Nat) w, (l ++ [(k', v')])[i]? = some (k, w) ↔ l[i]? = some (k, w) := by
        intro i w
        rw [List.getElem?_append]
        split
        · rfl
        · rename_i hi
          rw [List.getElem?_eq_none (Nat.not_lt.1 hi)]
          simp [List.getElem?_singleton, Ne.symm hk]
      simp only [if_neg hk, ih, hat, ne_eq]

end Entries

/-! ## Sizes -/

section Sizes

variable [Std.LawfulEqOrd κ]

theorem mem_keys_iff {m : SortedMap κ υ} {k : κ} : k ∈ m.keys ↔ ∃ v, m.get? k = some v := by
  rw [keys, List.mem_map]
  constructor
  · rintro ⟨e, he, rfl⟩
    exact ⟨e.2, get?_eq_some_iff.2 he⟩
  · rintro ⟨v, hv⟩
    exact ⟨_, get?_eq_some_iff.1 hv, rfl⟩

theorem contains_iff_mem_keys {m : SortedMap κ υ} {k : κ} : m.contains k = true ↔ k ∈ m.keys := by
  rw [contains, Option.isSome_iff_exists, mem_keys_iff]

variable [DecidableEq κ]

theorem size_eq_card (m : SortedMap κ υ) : m.size = m.keys.toFinset.card := by
  rw [List.toFinset_card_of_nodup m.nodup_keys, keys, List.length_map, size]

theorem toFinset_keys_insert [Std.TransOrd κ] (m : SortedMap κ υ) (k : κ) (v : υ) :
    (m.insert k v).keys.toFinset = Insert.insert k m.keys.toFinset := by
  ext k'
  rw [Finset.mem_insert, List.mem_toFinset, List.mem_toFinset, mem_keys_iff, mem_keys_iff,
    get?_insert]
  by_cases h : k' = k <;> simp [h]

theorem toFinset_keys_erase (m : SortedMap κ υ) (k : κ) :
    (m.erase k).keys.toFinset = m.keys.toFinset.erase k := by
  ext k'
  rw [Finset.mem_erase, List.mem_toFinset, List.mem_toFinset, mem_keys_iff, mem_keys_iff, get?_erase]
  by_cases h : k' = k <;> simp [h]

/-- A key that is there already takes no more room. -/
theorem size_insert [Std.TransOrd κ] (m : SortedMap κ υ) (k : κ) (v : υ) :
    (m.insert k v).size + (m.contains k).toNat = m.size + 1 := by
  rw [size_eq_card, toFinset_keys_insert, size_eq_card]
  cases h : m.contains k with
  | true =>
    rw [Finset.insert_eq_of_mem (List.mem_toFinset.2 (contains_iff_mem_keys.1 h))]
    rfl
  | false =>
    rw [← Bool.not_eq_true, contains_iff_mem_keys, ← List.mem_toFinset] at h
    exact Finset.card_insert_of_notMem h

theorem size_erase (m : SortedMap κ υ) (k : κ) :
    (m.erase k).size + (m.contains k).toNat = m.size := by
  rw [size_eq_card, toFinset_keys_erase, size_eq_card]
  cases h : m.contains k with
  | true => exact Finset.card_erase_add_one (List.mem_toFinset.2 (contains_iff_mem_keys.1 h))
  | false =>
    rw [← Bool.not_eq_true, contains_iff_mem_keys, ← List.mem_toFinset] at h
    rw [Finset.erase_eq_of_notMem h]
    rfl

end Sizes

theorem size_filter_le (m : SortedMap κ υ) (p : κ → υ → Bool) : (m.filter p).size ≤ m.size :=
  List.length_filter_le _ _

theorem size_keepLast (m : SortedMap κ υ) (n : Nat) : (m.keepLast n).size = min m.size n := by
  rw [size, size, keepLast, List.length_drop]
  omega

theorem toFinset_keys_keepLast_subset [DecidableEq κ] (m : SortedMap κ υ) (n : Nat) :
    (m.keepLast n).keys.toFinset ⊆ m.keys.toFinset := by
  intro k hk
  rw [List.mem_toFinset] at hk ⊢
  exact List.map_subset _ (List.drop_subset _ _) hk

theorem get?_of_get?_keepLast [Std.LawfulEqOrd κ] {m : SortedMap κ υ} {n : Nat} {k : κ} {v : υ}
    (h : (m.keepLast n).get? k = some v) : m.get? k = some v :=
  get?_eq_some_iff.2 (List.mem_of_mem_drop (get?_eq_some_iff.1 h))

/-- The entries that are not kept are the smallest ones. -/
theorem entries_eq_append_keepLast (m : SortedMap κ υ) (n : Nat) :
    m.entries = m.entries.take (m.size - n) ++ (m.keepLast n).entries :=
  (List.take_append_drop _ _).symm

theorem keepLast_of_size_le {m : SortedMap κ υ} {n : Nat} (h : m.size ≤ n) : m.keepLast n = m := by
  have hzero : m.entries.length - n = 0 := by
    rw [size] at h
    omega
  apply ext_entries
  show m.entries.drop (m.entries.length - n) = m.entries
  rw [hzero, List.drop_zero]

/-! ## Properties of all entries -/

/-- All entries have the property. -/
def All (P : κ → υ → Prop) (m : SortedMap κ υ) : Prop := ∀ e ∈ m.entries, P e.1 e.2

section All

variable {P Q : κ → υ → Prop} {m : SortedMap κ υ} {k : κ} {v : υ}

theorem all_empty : (∅ : SortedMap κ υ).All P := fun _ he => nomatch he

theorem All.imp (h : m.All P) (hPQ : ∀ k v, P k v → Q k v) : m.All Q :=
  fun e he => hPQ e.1 e.2 (h e he)

theorem All.of_get? [Std.LawfulEqOrd κ] (h : m.All P)
    (hv : m.get? k = some v) : P k v :=
  h _ (get?_eq_some_iff.1 hv)

theorem All.getD [Std.LawfulEqOrd κ] (h : m.All P) (hv : P k v) :
    P k ((m.get? k).getD v) := by
  cases hget : m.get? k with
  | none => exact hv
  | some v' => exact h.of_get? hget

theorem All.insert [Std.TransOrd κ] (h : m.All P) (hv : P k v) : (m.insert k v).All P := by
  intro e he
  rcases mem_insertEntry he with rfl | he
  · exact hv
  · exact h e he

theorem All.filter (h : m.All P) (p : κ → υ → Bool) : (m.filter p).All P :=
  fun e he => h e (List.mem_filter.1 he).1

theorem All.keepLast (h : m.All P) (n : Nat) : (m.keepLast n).All P :=
  fun e he => h e (List.mem_of_mem_drop he)

end All

/-! ## Maps as tables -/

/-- The map has the keys of `s`, each with the value that `f` gives it. -/
structure Tabulates (m : SortedMap κ υ) (s : Finset κ) (f : κ → υ) : Prop where
  of_mem : ∀ k ∈ s, m.get? k = some (f k)
  of_notMem : ∀ k ∉ s, m.get? k = none

theorem tabulates_empty (f : κ → υ) : (∅ : SortedMap κ υ).Tabulates ∅ f :=
  ⟨fun _ hk => absurd hk (Finset.notMem_empty _), fun _ _ => rfl⟩

namespace Tabulates

variable {m : SortedMap κ υ} {s : Finset κ} {f g : κ → υ}

theorem congr (h : m.Tabulates s f) (hg : ∀ k ∈ s, g k = f k) : m.Tabulates s g :=
  ⟨fun k hk => by rw [h.of_mem k hk, hg k hk], h.of_notMem⟩

variable [Std.LawfulEqOrd κ]

theorem entries_eq (h : m.Tabulates s f) :
    (m.entries : Multiset (κ × υ)) = s.val.map fun k => (k, f k) := by
  have hentries : m.entries.Nodup := List.Nodup.of_map Prod.fst m.nodup_keys
  have htable : (s.val.map fun k => (k, f k)).Nodup :=
    Multiset.Nodup.map (fun j k heq => (Prod.mk.inj heq).1) s.nodup
  -- neither side has an entry twice, so it is enough that they have the same ones
  rw [Multiset.Nodup.ext (Multiset.coe_nodup.2 hentries) htable]
  rintro ⟨k, v⟩
  rw [Multiset.mem_coe, ← get?_eq_some_iff, Multiset.mem_map]
  constructor
  · intro hget
    by_cases hk : k ∈ s
    · refine ⟨k, hk, ?_⟩
      rw [h.of_mem k hk, Option.some.injEq] at hget
      rw [hget]
    · rw [h.of_notMem k hk] at hget
      cases hget
  · rintro ⟨k', hk', heq⟩
    cases heq
    exact h.of_mem k hk'

theorem size_eq (h : m.Tabulates s f) : m.size = s.card := by
  have hcard := congrArg Multiset.card h.entries_eq
  rw [Multiset.coe_card, Multiset.card_map] at hcard
  exact hcard

theorem filter (h : m.Tabulates s f) (p : κ → Bool) :
    (m.filter fun k _ => p k).Tabulates (s.filter fun k => p k) f := by
  constructor
  · intro k hk
    obtain ⟨hs, hp⟩ := Finset.mem_filter.1 hk
    rw [get?_filter, h.of_mem k hs, Option.filter_some, if_pos hp]
  · intro k hk
    rw [get?_filter]
    by_cases hs : k ∈ s
    · have hp : ¬ p k = true := fun hp => hk (Finset.mem_filter.2 ⟨hs, hp⟩)
      rw [h.of_mem k hs, Option.filter_some, if_neg hp]
    · rw [h.of_notMem k hs, Option.filter_none]

variable [DecidableEq κ]

theorem erase (h : m.Tabulates s f) (k : κ) : (m.erase k).Tabulates (s.erase k) f := by
  constructor
  · intro k' hk'
    obtain ⟨hk, hs⟩ := Finset.mem_erase.1 hk'
    rw [get?_erase, if_neg hk, h.of_mem k' hs]
  · intro k' hk'
    rw [get?_erase]
    by_cases hk : k' = k
    · rw [if_pos hk]
    · rw [if_neg hk]
      exact h.of_notMem k' fun hs => hk' (Finset.mem_erase.2 ⟨hk, hs⟩)

theorem insert [Std.TransOrd κ] (h : m.Tabulates s f) {k : κ}
    (hg : ∀ k' ∈ s, k' ≠ k → g k' = f k') :
    (m.insert k (g k)).Tabulates (Insert.insert k s) g := by
  constructor
  · intro k' hk'
    rw [get?_insert]
    by_cases hk : k' = k
    · rw [if_pos hk, hk]
    · have hs := Finset.mem_of_mem_insert_of_ne hk' hk
      rw [if_neg hk, h.of_mem k' hs, hg k' hs hk]
  · intro k' hk'
    rw [Finset.mem_insert, not_or] at hk'
    rw [get?_insert, if_neg hk'.1, h.of_notMem k' hk'.2]

end Tabulates

end SeriesPipeline.SortedMap
