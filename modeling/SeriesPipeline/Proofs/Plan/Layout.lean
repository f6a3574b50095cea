import Mathlib.Data.List.Forall2
import Mathlib.Tactic.Set
import SeriesPipeline.Plan.Basic

/-!
# The layout of stages

Nodes are laid out one after the other. When each node comes after its inputs, every stage reads
only from stages before it, and the ports of a node's stage lead to the stages that stand for its
inputs, in the same order.
-/

namespace SeriesPipeline

/-- The windowing of a source with a period. -/
def Node.grouping? (n : Node) : Option WindowNode :=
  match n.kind with
  | .source s => s.period.map fun period => ⟨period, none, s.grouping⟩
  | _ => none

/-- The id of the stage that readers of a node read from. -/
def Node.outletId (n : Node) : String :=
  if n.grouping?.isSome then Plan.groupingId n.id else n.id

namespace Plan

/-- The ids, nodes and kinds of a node's stages. -/
def outline (n : Node) : List (String × String × NodeKind) :=
  (n.id, n.id, n.kind) ::
    (n.grouping?.map fun w => (groupingId n.id, n.id, NodeKind.window w)).toList

/-- A stage with this number stands for the node with that id. -/
def Stands (nodes : List Node) (stages : List PlannedStage) (id : String) (number : Nat) : Prop :=
  ∃ n ∈ nodes, n.id = id ∧ (stages[number]?).map (·.id) = some n.outletId

/-- The stage of a node has its kind, its ports lead to the stages of its inputs, and the stage that
groups its rows comes right after it. -/
def Wired (nodes : List Node) (stages : List PlannedStage) (n : Node) : Prop :=
  ∃ number inputs, stages[number]? = some ⟨n.id, n.id, n.kind, inputs⟩ ∧
    List.Forall₂ (Stands nodes stages) n.inputs inputs ∧
    ∀ w ∈ n.grouping?,
      stages[number + 1]? = some ⟨groupingId n.id, n.id, .window w, [number]⟩

/-- Some nodes have been laid out. -/
structure LaidOut (nodes : List Node) (l : Layout) : Prop where
  outline : l.stages.map (fun s => (s.id, s.node, s.kind)) = nodes.flatMap outline
  before : ∀ (number : Nat) (s : PlannedStage), l.stages[number]? = some s →
    ∀ input ∈ s.inputs, input < number
  producer : ∀ n ∈ nodes, ∃ number, l.producer? n.id = some number ∧
    (l.stages[number]?).map (·.id) = some n.outletId
  wired : ∀ n ∈ nodes, Wired nodes l.stages n

theorem laidOut_nil : LaidOut [] ⟨[], []⟩ where
  outline := rfl
  before number s hs := by
    rw [List.getElem?_nil] at hs
    cases hs
  producer n hn := absurd hn List.not_mem_nil
  wired n hn := absurd hn List.not_mem_nil

theorem stagesOf_eq (n : Node) (number : Nat) (inputs : List Nat) :
    stagesOf n number inputs = ⟨n.id, n.id, n.kind, inputs⟩ ::
      (n.grouping?.map fun w => ⟨groupingId n.id, n.id, .window w, [number]⟩).toList := by
  rw [stagesOf, Node.grouping?]
  cases n.kind with
  | source s =>
    dsimp only
    cases s.period <;> rfl
  | _ => rfl

theorem forall₂_filterMap {α β : Type} {f : α → Option β} {l : List α}
    (h : ∀ a ∈ l, (f a).isSome) : List.Forall₂ (fun a b => f a = some b) l (l.filterMap f) := by
  induction l with
  | nil => exact .nil
  | cons a rest ih =>
    obtain ⟨b, hb⟩ := Option.isSome_iff_exists.1 (h a List.mem_cons_self)
    rw [List.filterMap_cons_some hb]
    exact .cons hb (ih fun a' ha' => h a' (List.mem_cons_of_mem _ ha'))

theorem getElem?_append_of_some {stages : List PlannedStage} {number : Nat} {s : PlannedStage}
    (h : stages[number]? = some s) (later : List PlannedStage) :
    (stages ++ later)[number]? = some s := by
  rw [List.getElem?_append_left (List.getElem?_eq_some_iff.1 h).1, h]

theorem Stands.append {nodes later : List Node} {stages added : List PlannedStage} {id : String}
    {number : Nat} (h : Stands nodes stages id number) :
    Stands (nodes ++ later) (stages ++ added) id number := by
  obtain ⟨n, hn, hid, hstage⟩ := h
  obtain ⟨s, hs, hsid⟩ := Option.map_eq_some_iff.1 hstage
  refine ⟨n, List.mem_append_left _ hn, hid, ?_⟩
  rw [getElem?_append_of_some hs, Option.map_some, hsid]

theorem Wired.append {nodes later : List Node} {stages added : List PlannedStage} {n : Node}
    (h : Wired nodes stages n) : Wired (nodes ++ later) (stages ++ added) n := by
  obtain ⟨number, inputs, hstage, hinputs, hgrouping⟩ := h
  refine ⟨number, inputs, getElem?_append_of_some hstage _, hinputs.imp fun _ _ h => h.append, ?_⟩
  exact fun w hw => getElem?_append_of_some (hgrouping w hw) _

theorem Wired.mono {nodes nodes' : List Node} {stages : List PlannedStage} {n : Node}
    (h : Wired nodes stages n) (hnodes : nodes ⊆ nodes') : Wired nodes' stages n := by
  obtain ⟨number, inputs, hstage, hinputs, hgrouping⟩ := h
  refine ⟨number, inputs, hstage, hinputs.imp ?_, hgrouping⟩
  rintro id input ⟨m, hm, hstands⟩
  exact ⟨m, hnodes hm, hstands⟩

theorem producer?_place (l : Layout) (n : Node) (id : String) :
    (l.place n).producer? id =
      if n.id = id then some ((l.place n).stages.length - 1) else l.producer? id := by
  rw [Layout.producer?, Layout.place, List.find?_cons]
  by_cases h : n.id = id
  · simp [h]
  · simp [h, Layout.producer?]

theorem map_stagesOf (n : Node) (number : Nat) (inputs : List Nat) :
    (stagesOf n number inputs).map (fun s => (s.id, s.node, s.kind)) = outline n := by
  rw [stagesOf_eq, outline]
  cases n.grouping? <;> rfl

theorem getLast?_stagesOf (n : Node) (number : Nat) (inputs : List Nat) :
    ((stagesOf n number inputs).getLast?).map (·.id) = some n.outletId := by
  rw [stagesOf_eq, Node.outletId]
  cases n.grouping? <;> rfl

/-- A node's stages read from the stages of its inputs, and from one another in order. -/
theorem lt_of_mem_stagesOf {n : Node} {number : Nat} {inputs : List Nat}
    (hinputs : ∀ input ∈ inputs, input < number) {i : Nat} {s : PlannedStage}
    (h : (stagesOf n number inputs)[i]? = some s) : ∀ input ∈ s.inputs, input < number + i := by
  rw [stagesOf_eq] at h
  intro input hinput
  cases i with
  | zero =>
    cases h
    exact hinputs input hinput
  | succ i =>
    rw [List.getElem?_cons_succ] at h
    obtain ⟨w, -, rfl⟩ := Option.map_eq_some_iff.1 (Option.mem_toList.1 (List.mem_of_getElem? h))
    rw [List.mem_singleton.1 hinput]
    omega

section Place

variable {nodes : List Node} {l : Layout} {n : Node} (h : LaidOut nodes l)
  (hinputs : ∀ input ∈ n.inputs, ∃ m ∈ nodes, m.id = input)
include h hinputs

/-- The inputs of a node are those stages that stand for its inputs. -/
theorem LaidOut.stands :
    List.Forall₂ (Stands nodes l.stages) n.inputs (n.inputs.filterMap l.producer?) := by
  -- every input has been laid out, so no port is lost
  have hsome : ∀ input ∈ n.inputs, (l.producer? input).isSome := by
    intro input hinput
    obtain ⟨m, hm, rfl⟩ := hinputs input hinput
    obtain ⟨number, hproducer, -⟩ := h.producer m hm
    rw [hproducer]
    rfl
  have hall := (List.forall₂_and_left n.inputs _).2 ⟨fun _ hid => hid, forall₂_filterMap hsome⟩
  refine hall.imp ?_
  rintro input number ⟨hinput, hnumber⟩
  obtain ⟨m, hm, rfl⟩ := hinputs input hinput
  obtain ⟨number', hproducer, hstage⟩ := h.producer m hm
  rw [hproducer, Option.some.injEq] at hnumber
  exact ⟨m, hm, rfl, hnumber ▸ hstage⟩

theorem LaidOut.input_lt : ∀ input ∈ n.inputs.filterMap l.producer?, input < l.stages.length := by
  intro input hinput
  obtain ⟨id, hid, hproducer⟩ := List.mem_filterMap.1 hinput
  obtain ⟨m, hm, rfl⟩ := hinputs id hid
  obtain ⟨number, hproducer', hstage⟩ := h.producer m hm
  rw [hproducer, Option.some.injEq] at hproducer'
  obtain ⟨s, hs, -⟩ := Option.map_eq_some_iff.1 hstage
  exact hproducer' ▸ (List.getElem?_eq_some_iff.1 hs).1

/-- One more node, whose inputs have been laid out. -/
theorem LaidOut.place (hfresh : ∀ m ∈ nodes, m.id ≠ n.id) :
    LaidOut (nodes ++ [n]) (l.place n) := by
  set inputs := n.inputs.filterMap l.producer?
  set added := stagesOf n l.stages.length inputs with hadded
  have hstages : (l.place n).stages = l.stages ++ added := rfl
  have hown : added[0]? = some ⟨n.id, n.id, n.kind, inputs⟩ := by
    rw [hadded, stagesOf_eq]
    rfl
  refine ⟨?_, ?_, ?_, ?_⟩
  · rw [hstages, List.map_append, h.outline, map_stagesOf, List.flatMap_append,
      List.flatMap_singleton]
  · -- the new stages read from old ones, and the grouping one from the one before it
    intro number s hs
    rw [hstages] at hs
    by_cases hold : number < l.stages.length
    · rw [List.getElem?_append_left hold] at hs
      exact h.before number s hs
    · rw [List.getElem?_append_right (Nat.le_of_not_lt hold)] at hs
      intro input hinput
      have hlt := lt_of_mem_stagesOf (h.input_lt hinputs) hs input hinput
      omega
  · -- readers of the node read from the last of its stages
    intro m hm
    rw [producer?_place, hstages]
    rcases List.mem_append.1 hm with hm | hm
    · obtain ⟨number, hproducer, hstage⟩ := h.producer m hm
      obtain ⟨s, hs, hid⟩ := Option.map_eq_some_iff.1 hstage
      rw [if_neg (Ne.symm (hfresh m hm))]
      refine ⟨number, hproducer, ?_⟩
      rw [getElem?_append_of_some hs, Option.map_some, hid]
    · rw [List.mem_singleton.1 hm, if_pos rfl]
      refine ⟨_, rfl, ?_⟩
      rw [← List.getLast?_eq_getElem?, List.getLast?_append_of_ne_nil]
      · exact getLast?_stagesOf n _ _
      · intro hnil
        rw [hnil] at hown
        cases hown
  · -- stages keep their numbers, so what is wired stays so
    intro m hm
    rcases List.mem_append.1 hm with hm | hm
    · exact (h.wired m hm).append
    · rw [List.mem_singleton.1 hm, hstages]
      refine ⟨l.stages.length, inputs, ?_, (h.stands hinputs).imp fun _ _ h => h.append, ?_⟩
      · rw [List.getElem?_append_right (Nat.le_refl _), Nat.sub_self, hown]
      · intro w hw
        rw [List.getElem?_append_right (Nat.le_add_right _ 1), Nat.add_sub_cancel_left, hadded,
          stagesOf_eq, Option.mem_def.1 hw]
        rfl

end Place

end Plan

end SeriesPipeline
