import Mathlib.Data.Finset.Card
import Mathlib.Data.List.ReduceOption
import SeriesPipeline.Operator.Joining
import SeriesPipeline.Proofs.Operator.Keys
import SeriesPipeline.Proofs.SortedMap

/-!
# Slots of a join

Which batches of some ports belong to an alignment, and which alignments have one of every port. A
join keeps them in slots; one more batch fills the slot of its port and changes no other.
-/

namespace SeriesPipeline.Joining

variable (op : Joining)

/-- The batch of a port for an alignment. -/
def part (log : List (Nat × Batch)) (key : Alignment) (port : Nat) : Option Batch :=
  (Request.fromPort port log).find? fun b => op.alignment? b = some key

/-- The slots of an alignment, one per port. -/
def slotsOf (ports : Nat) (log : List (Nat × Batch)) (key : Alignment) : Slots :=
  (List.range ports).map (op.part log key)

/-- Every port has a batch for the alignment. -/
def Filled (ports : Nat) (log : List (Nat × Batch)) (key : Alignment) : Prop :=
  (op.slotsOf ports log key).all (·.isSome) = true

instance (ports : Nat) (log : List (Nat × Batch)) (key : Alignment) :
    Decidable (op.Filled ports log key) :=
  inferInstanceAs (Decidable (_ = true))

/-- The alignments that have a batch of every port. -/
def completed (ports : Nat) (log : List (Nat × Batch)) : Finset Alignment :=
  (keysOf op.alignment? log).filter fun key => op.Filled ports log key

/-- The alignments that lack a batch of some port. -/
def incomplete (ports : Nat) (log : List (Nat × Batch)) : Finset Alignment :=
  (keysOf op.alignment? log).filter fun key => ¬ op.Filled ports log key

/-- What is put out for the complete alignments. -/
def joined (ports : Nat) (log : List (Nat × Batch)) : Multiset Batch :=
  (op.completed ports log).val.map fun key =>
    op.combine key (op.slotsOf ports log key).reduceOption

variable {op} {log : List (Nat × Batch)} {port ports : Nat} {b : Batch} {key : Alignment}

/-- Of the values of some ports, one is changed. -/
theorem map_range_eq_set {α : Type} {f g : Nat → α} {a : α}
    (h : ∀ i, g i = if i = port then a else f i) :
    (List.range ports).map g = ((List.range ports).map f).set port a := by
  apply List.ext_getElem
  · rw [List.length_set, List.length_map, List.length_map]
  · intro i _ _
    rw [List.getElem_set, List.getElem_map, List.getElem_map, List.getElem_range, h]
    by_cases hi : i = port
    · rw [if_pos hi, if_pos hi.symm]
    · rw [if_neg hi, if_neg (Ne.symm hi)]

theorem complete?_eq (slots : Slots) :
    complete? slots = if slots.all (·.isSome) then some slots.reduceOption else none := by
  rw [complete?]
  -- the slots are read in order, and the first empty one stops the reading
  induction slots with
  | nil => rfl
  | cons slot rest ih =>
    rw [List.mapM_cons, ih]
    cases slot with
    | none => rfl
    | some b =>
      rw [List.reduceOption_cons_of_some]
      by_cases h : rest.all (·.isSome)
      · simp [h]
      · simp [h]

theorem part_isSome : (op.part log key port).isSome ↔
    ∃ b ∈ Request.fromPort port log, op.alignment? b = some key := by
  rw [part, List.find?_isSome]
  simp only [decide_eq_true_eq]

theorem part_eq_none (h : key ∉ keysOf op.alignment? log) (port : Nat) :
    op.part log key port = none := by
  rw [← Option.not_isSome_iff_eq_none, part_isSome]
  rintro ⟨b, hb, hkey⟩
  obtain ⟨e, he, rfl⟩ := List.mem_map.1 hb
  exact h (mem_keysOf.2 ⟨e, (List.mem_filter.1 he).1, hkey⟩)

/-- An alignment without batches has empty slots. -/
theorem slotsOf_eq_replicate (h : key ∉ keysOf op.alignment? log) :
    op.slotsOf ports log key = List.replicate ports none := by
  rw [slotsOf, List.eq_replicate_iff]
  refine ⟨by rw [List.length_map, List.length_range], fun slot hslot => ?_⟩
  obtain ⟨port, -, rfl⟩ := List.mem_map.1 hslot
  exact part_eq_none h port

/-- An alignment is not complete while a port has no batch for it. -/
theorem not_all_slotsOf (hport : port < ports) (hnew : op.part log key port = none) :
    ¬ op.Filled ports log key := by
  intro hall
  have hsome := List.all_eq_true.1 hall (op.part log key port)
    (List.mem_map_of_mem (List.mem_range.2 hport))
  rw [hnew] at hsome
  cases hsome

section Append

variable (hkey : op.alignment? b = some key) (hnew : op.part log key port = none)
include hkey

theorem part_append_of_ne {key' : Alignment} (hne : key' ≠ key) (port' : Nat) :
    op.part (log ++ [(port, b)]) key' port' = op.part log key' port' := by
  rw [part, Request.fromPort_append, List.find?_append, ← part]
  -- the new batch is of another alignment, whatever port it comes from
  have hnone : (Request.fromPort port' [(port, b)]).find?
      (fun b => decide (op.alignment? b = some key')) = none := by
    rw [List.find?_eq_none]
    intro b' hb'
    obtain ⟨e, he, rfl⟩ := List.mem_map.1 hb'
    rw [List.mem_singleton.1 (List.mem_filter.1 he).1, hkey]
    simpa using Ne.symm hne
  rw [hnone, Option.or_none]

theorem slotsOf_append_of_ne {key' : Alignment} (hne : key' ≠ key) :
    op.slotsOf ports (log ++ [(port, b)]) key' = op.slotsOf ports log key' :=
  List.map_congr_left fun port' _ => part_append_of_ne hkey hne port'

theorem filled_append_of_ne {key' : Alignment} (hne : key' ≠ key) :
    op.Filled ports (log ++ [(port, b)]) key' ↔ op.Filled ports log key' := by
  rw [Filled, Filled, slotsOf_append_of_ne hkey hne]

theorem mem_incomplete_append_of_ne {key' : Alignment} (hne : key' ≠ key) :
    key' ∈ op.incomplete ports (log ++ [(port, b)]) ↔ key' ∈ op.incomplete ports log := by
  rw [incomplete, incomplete, Finset.mem_filter, Finset.mem_filter, keysOf_append hkey port,
    Finset.mem_insert, filled_append_of_ne hkey hne]
  simp only [hne, false_or]

theorem mem_incomplete_append : key ∈ op.incomplete ports (log ++ [(port, b)]) ↔
    ¬ op.Filled ports (log ++ [(port, b)]) key := by
  rw [incomplete, Finset.mem_filter, keysOf_append hkey port]
  exact and_iff_right (Finset.mem_insert_self key _)

theorem completed_append_of_not_all
    (hall : ¬ op.Filled ports (log ++ [(port, b)]) key)
    (hbefore : ¬ op.Filled ports log key) :
    op.completed ports (log ++ [(port, b)]) = op.completed ports log := by
  ext key'
  rw [completed, completed, Finset.mem_filter, Finset.mem_filter, keysOf_append hkey port,
    Finset.mem_insert]
  by_cases hne : key' = key
  · subst hne
    exact iff_of_false (fun h => hall h.2) (fun h => hbefore h.2)
  · rw [filled_append_of_ne hkey hne]
    simp only [hne, false_or]

theorem completed_append_of_all
    (hall : op.Filled ports (log ++ [(port, b)]) key) :
    op.completed ports (log ++ [(port, b)]) = insert key (op.completed ports log) := by
  ext key'
  rw [completed, completed, Finset.mem_insert, Finset.mem_filter, Finset.mem_filter,
    keysOf_append hkey port, Finset.mem_insert]
  by_cases hne : key' = key
  · subst hne
    exact iff_of_true ⟨.inl rfl, hall⟩ (.inl rfl)
  · rw [filled_append_of_ne hkey hne]
    simp only [hne, false_or]

theorem combine_append_of_completed
    (hbefore : ¬ op.Filled ports log key) :
    ∀ key' ∈ op.completed ports log,
      op.combine key' (op.slotsOf ports (log ++ [(port, b)]) key').reduceOption =
        op.combine key' (op.slotsOf ports log key').reduceOption := by
  intro key' hkey'
  have hne : key' ≠ key := by
    rintro rfl
    exact hbefore (Finset.mem_filter.1 hkey').2
  rw [slotsOf_append_of_ne hkey hne]

/-- The batch that completes an alignment puts out that alignment. -/
theorem joined_append_of_all
    (hall : op.Filled ports (log ++ [(port, b)]) key)
    (hbefore : ¬ op.Filled ports log key) :
    op.joined ports (log ++ [(port, b)]) =
      op.combine key (op.slotsOf ports (log ++ [(port, b)]) key).reduceOption ::ₘ
        op.joined ports log := by
  have hfresh : key ∉ op.completed ports log := fun hold => hbefore (Finset.mem_filter.1 hold).2
  rw [joined, completed_append_of_all hkey hall, Finset.insert_val_of_notMem hfresh,
    Multiset.map_cons, Multiset.map_congr rfl (combine_append_of_completed hkey hbefore), ← joined]

theorem joined_append_of_not_all
    (hall : ¬ op.Filled ports (log ++ [(port, b)]) key)
    (hbefore : ¬ op.Filled ports log key) :
    op.joined ports (log ++ [(port, b)]) = op.joined ports log := by
  rw [joined, completed_append_of_not_all hkey hall hbefore,
    Multiset.map_congr rfl (combine_append_of_completed hkey hbefore), ← joined]

include hnew

theorem part_append (port' : Nat) : op.part (log ++ [(port, b)]) key port' =
    if port' = port then some b else op.part log key port' := by
  rw [part, Request.fromPort_append, List.find?_append, ← part, Request.fromPort]
  by_cases hport : port' = port
  · subst hport
    simp [hnew, hkey]
  · simp [hport, Ne.symm hport]

/-- A batch fills the slot of its port. -/
theorem slotsOf_append : op.slotsOf ports (log ++ [(port, b)]) key =
    (op.slotsOf ports log key).set port (some b) :=
  map_range_eq_set (part_append hkey hnew)

end Append

end SeriesPipeline.Joining
