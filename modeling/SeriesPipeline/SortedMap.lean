/-!
# Finite maps in key order

A `SortedMap` is a list of entries whose keys strictly increase, so two maps with the same entries
are equal, and listing a map needs no sorting. `insert` replaces the value under an equal key.
-/

namespace SeriesPipeline

structure SortedMap (κ : Type) (υ : Type) [Ord κ] where
  entries : List (κ × υ)
  sorted : entries.Pairwise (fun a b => compare a.1 b.1 = .lt)

namespace SortedMap

variable {κ υ ω : Type} [Ord κ]

theorem ext_entries {m n : SortedMap κ υ} (h : m.entries = n.entries) : m = n := by
  cases m; cases n; simp_all

instance : EmptyCollection (SortedMap κ υ) := ⟨⟨[], .nil⟩⟩

instance : Inhabited (SortedMap κ υ) := ⟨∅⟩

instance [DecidableEq κ] [DecidableEq υ] : DecidableEq (SortedMap κ υ) := fun m n =>
  decidable_of_iff (m.entries = n.entries) ⟨ext_entries, fun h => h ▸ rfl⟩

/-- Maps are ordered as their entry lists are: the first difference decides. -/
instance [Ord υ] : Ord (SortedMap κ υ) where
  compare m n := @compare _ (@List.instOrd _ lexOrd) m.entries n.entries

instance [Ord υ] [Std.TransOrd κ] [Std.TransOrd υ] : Std.TransOrd (SortedMap κ υ) where
  eq_swap {_ _} := @Std.OrientedCmp.eq_swap _ (@compare _ (@List.instOrd (κ × υ) lexOrd)) _ _ _
  isLE_trans {_ _ _} :=
    @Std.TransCmp.isLE_trans _ (@compare _ (@List.instOrd (κ × υ) lexOrd)) _ _ _ _

instance [Ord υ] [Std.LawfulEqOrd κ] [Std.LawfulEqOrd υ] : Std.LawfulEqOrd (SortedMap κ υ) where
  compare_self {_} := @Std.ReflCmp.compare_self _ (@compare _ (@List.instOrd (κ × υ) lexOrd)) _ _
  eq_of_compare {_ _} h := ext_entries
    (@Std.LawfulEqCmp.eq_of_compare _ (@compare _ (@List.instOrd (κ × υ) lexOrd)) _ _ _ h)

def toList (m : SortedMap κ υ) : List (κ × υ) := m.entries

def keys (m : SortedMap κ υ) : List κ := m.entries.map (·.1)

def values (m : SortedMap κ υ) : List υ := m.entries.map (·.2)

def size (m : SortedMap κ υ) : Nat := m.entries.length

def isEmpty (m : SortedMap κ υ) : Bool := m.entries.isEmpty

def lookup (k : κ) : List (κ × υ) → Option υ
  | [] => none
  | (k', v) :: rest => if compare k k' = .eq then some v else lookup k rest

def get? (m : SortedMap κ υ) (k : κ) : Option υ := lookup k m.entries

def contains (m : SortedMap κ υ) (k : κ) : Bool := (m.get? k).isSome

def insertEntry (k : κ) (v : υ) : List (κ × υ) → List (κ × υ)
  | [] => [(k, v)]
  | (k', v') :: rest =>
    match compare k k' with
    | .lt => (k, v) :: (k', v') :: rest
    | .eq => (k, v) :: rest
    | .gt => (k', v') :: insertEntry k v rest

theorem mem_insertEntry {k : κ} {v : υ} {e : κ × υ} {l : List (κ × υ)}
    (h : e ∈ insertEntry k v l) : e = (k, v) ∨ e ∈ l := by
  induction l with
  | nil => simpa [insertEntry] using h
  | cons a rest ih =>
    obtain ⟨k', v'⟩ := a
    simp only [insertEntry] at h
    split at h
    · simpa using h
    · rcases List.mem_cons.1 h with h | h
      · exact .inl h
      · exact .inr (List.mem_cons_of_mem _ h)
    · rcases List.mem_cons.1 h with h | h
      · exact .inr (h ▸ List.mem_cons_self)
      · exact (ih h).imp id (List.mem_cons_of_mem _)

theorem sorted_insertEntry [Std.TransOrd κ] (k : κ) (v : υ) {l : List (κ × υ)}
    (h : l.Pairwise (fun a b => compare a.1 b.1 = .lt)) :
    (insertEntry k v l).Pairwise (fun a b => compare a.1 b.1 = .lt) := by
  induction l with
  | nil => simp [insertEntry]
  | cons a rest ih =>
    obtain ⟨k', v'⟩ := a
    obtain ⟨hhead, htail⟩ := List.pairwise_cons.1 h
    simp only [insertEntry]
    split
    · rename_i hlt
      refine List.pairwise_cons.2 ⟨fun b hb => ?_, h⟩
      rcases List.mem_cons.1 hb with rfl | hb
      · exact hlt
      · exact Std.TransCmp.lt_trans hlt (hhead b hb)
    · rename_i heq
      exact List.pairwise_cons.2
        ⟨fun b hb => Std.TransCmp.lt_of_eq_of_lt heq (hhead b hb), htail⟩
    · rename_i hgt
      refine List.pairwise_cons.2 ⟨fun b hb => ?_, ih htail⟩
      rcases mem_insertEntry hb with rfl | hb
      · exact Std.OrientedCmp.lt_of_gt hgt
      · exact hhead b hb

def insert [Std.TransOrd κ] (m : SortedMap κ υ) (k : κ) (v : υ) : SortedMap κ υ :=
  ⟨insertEntry k v m.entries, sorted_insertEntry k v m.sorted⟩

/-- Later entries replace earlier ones under an equal key. -/
def ofList [Std.TransOrd κ] (l : List (κ × υ)) : SortedMap κ υ :=
  l.foldl (fun m e => m.insert e.1 e.2) ∅

def filter (m : SortedMap κ υ) (p : κ → υ → Bool) : SortedMap κ υ :=
  ⟨m.entries.filter (fun e => p e.1 e.2), m.sorted.filter _⟩

def erase (m : SortedMap κ υ) (k : κ) : SortedMap κ υ :=
  m.filter (fun k' _ => compare k k' != .eq)

/-- The map without its smallest entry. -/
def eraseMin (m : SortedMap κ υ) : SortedMap κ υ :=
  ⟨m.entries.tail, m.sorted.tail⟩

/-- Keeps the `n` largest entries. -/
def keepLast (m : SortedMap κ υ) (n : Nat) : SortedMap κ υ :=
  ⟨m.entries.drop (m.entries.length - n), m.sorted.drop⟩

def map (m : SortedMap κ υ) (f : κ → υ → ω) : SortedMap κ ω :=
  ⟨m.entries.map (fun e => (e.1, f e.1 e.2)), by
    simpa [List.pairwise_map] using m.sorted⟩

end SortedMap

end SeriesPipeline
