import Mathlib.Data.List.Nodup
import Mathlib.Data.List.Perm.Basic
import SeriesPipeline.Task.Basic

/-!
# Outlets of a plan

When every stage reads only from stages before it, the network of a plan has one outlet for each
port of each stage, at the process of the stage that the port reads from.
-/

namespace SeriesPipeline.Plan

/-- The owner, the receiving process and the port of every outlet. -/
def wires (processes : List Process) : List (Nat × Nat × Nat) :=
  processes.zipIdx.flatMap fun (process, owner) =>
    process.outlets.map fun o => (owner, owner + 1 + o.between, o.port)

/-- The stage read from, the reading stage and its port, for every port. -/
def reads (stages : List PlannedStage) : List (Nat × Nat × Nat) :=
  stages.zipIdx.flatMap fun (s, reader) =>
    s.inputs.zipIdx.map fun (input, port) => (input, reader, port)

/-- Lists made for the items of a list have no item twice when each tells where it comes from. -/
theorem nodup_flatMap_zipIdx {α β : Type} (l : List α) (f : α → Nat → List β) (origin : β → Nat)
    (hf : ∀ a ∈ l, ∀ i, (f a i).Nodup) (horigin : ∀ a i, ∀ x ∈ f a i, origin x = i) :
    (l.zipIdx.flatMap fun e => f e.1 e.2).Nodup := by
  rw [List.nodup_flatMap]
  refine ⟨fun e he => hf e.1 (List.fst_mem_of_mem_zipIdx he) e.2, ?_⟩
  have hnumbers : (l.zipIdx.map Prod.snd).Pairwise (· < ·) := by
    rw [List.zipIdx_map_snd]
    exact List.pairwise_lt_range'
  -- items from two places have two origins
  refine (List.pairwise_map.1 hnumbers).imp fun {d e} hlt x hd he => ?_
  have heq := (horigin _ _ x hd).symm.trans (horigin _ _ x he)
  omega

theorem nodup_reads (stages : List PlannedStage) : (reads stages).Nodup := by
  refine nodup_flatMap_zipIdx stages (fun s reader =>
    s.inputs.zipIdx.map fun (input, port) => (input, reader, port)) (·.2.1) ?_ ?_
  · intro s _ reader
    apply List.Nodup.of_map fun wire : Nat × Nat × Nat => wire.2.2
    rw [List.map_map]
    show (s.inputs.zipIdx.map Prod.snd).Nodup
    rw [List.zipIdx_map_snd]
    exact List.nodup_range'
  · intro s reader wire hwire
    obtain ⟨_, -, rfl⟩ := List.mem_map.1 hwire
    rfl

theorem mem_reads {stages : List PlannedStage} {input reader port : Nat} :
    (input, reader, port) ∈ reads stages ↔
      ∃ s, stages[reader]? = some s ∧ s.inputs[port]? = some input := by
  simp only [reads, List.mem_flatMap, List.mem_map, Prod.exists, List.mk_mem_zipIdx_iff_getElem?,
    Prod.mk.injEq]
  constructor
  · rintro ⟨s, _, hs, _, _, hinput, rfl, rfl, rfl⟩
    exact ⟨s, hs, hinput⟩
  · rintro ⟨s, hs, hinput⟩
    exact ⟨s, reader, hs, input, port, hinput, rfl, rfl, rfl⟩

theorem mem_outletsFrom {number : Nat} {later : List PlannedStage} {o : Outlet} :
    o ∈ outletsFrom number later ↔
      ∃ s, later[o.between]? = some s ∧ s.inputs[o.port]? = some number := by
  obtain ⟨between, port⟩ := o
  simp only [outletsFrom, List.mem_flatMap, List.mem_filterMap, Prod.exists,
    List.mk_mem_zipIdx_iff_getElem?]
  constructor
  · rintro ⟨s, _, hs, input, _, hinput, ho⟩
    by_cases heq : input = number
    · rw [if_pos heq] at ho
      cases ho
      exact ⟨s, hs, heq ▸ hinput⟩
    · rw [if_neg heq] at ho
      cases ho
  · rintro ⟨s, hs, hinput⟩
    exact ⟨s, between, hs, number, port, hinput, if_pos rfl⟩

theorem nodup_outletsFrom (number : Nat) (later : List PlannedStage) :
    (outletsFrom number later).Nodup := by
  refine nodup_flatMap_zipIdx later (fun s between => s.inputs.zipIdx.filterMap fun (input, port) =>
    if input = number then some (⟨between, port⟩ : Outlet) else none) (·.between) ?_ ?_
  · intro s _ between
    rw [List.filterMap_eq_flatMap_toList]
    refine nodup_flatMap_zipIdx s.inputs (fun input port =>
      (if input = number then some (⟨between, port⟩ : Outlet) else none).toList) (·.port) ?_ ?_
    · intro input _ port
      split
      · exact List.nodup_singleton _
      · exact List.nodup_nil
    · intro input port o ho
      split at ho
      · rw [List.mem_singleton.1 ho]
      · cases ho
  · intro s between o ho
    obtain ⟨⟨input, port⟩, -, hinput⟩ := List.mem_filterMap.1 ho
    dsimp only at hinput
    split at hinput
    · cases hinput
      rfl
    · cases hinput

variable {p : Plan}

theorem getElem?_processes (p : Plan) (number : Nat) :
    p.network.processes[number]? = (p.stages[number]?).map (p.process number) := by
  rw [network, List.getElem?_mapIdx]

theorem nodup_wires (p : Plan) : (wires p.network.processes).Nodup := by
  refine nodup_flatMap_zipIdx p.network.processes (fun process owner =>
    process.outlets.map fun o => (owner, owner + 1 + o.between, o.port)) (·.1) ?_ ?_
  · intro process hprocess owner
    obtain ⟨number, hnumber⟩ := List.mem_iff_getElem?.1 hprocess
    rw [getElem?_processes] at hnumber
    obtain ⟨s, -, rfl⟩ := Option.map_eq_some_iff.1 hnumber
    refine (nodup_outletsFrom number _).map fun o o' heq => ?_
    obtain ⟨between, port⟩ := o
    obtain ⟨between', port'⟩ := o'
    simp only [Prod.mk.injEq, true_and] at heq
    have hbetween : between = between' := by omega
    rw [hbetween, heq.2]
  · intro process owner wire hwire
    obtain ⟨_, -, rfl⟩ := List.mem_map.1 hwire
    rfl

theorem mem_wires {owner reader port : Nat} :
    (owner, reader, port) ∈ wires p.network.processes ↔
      owner < reader ∧ (owner, reader, port) ∈ reads p.stages := by
  rw [mem_reads]
  simp only [wires, List.mem_flatMap, List.mem_map, Prod.exists, List.mk_mem_zipIdx_iff_getElem?,
    Prod.mk.injEq, getElem?_processes]
  constructor
  · rintro ⟨process, _, hprocess, o, ho, rfl, rfl, rfl⟩
    obtain ⟨s, -, rfl⟩ := Option.map_eq_some_iff.1 hprocess
    obtain ⟨s', hs', hinput⟩ := mem_outletsFrom.1 ho
    rw [List.getElem?_drop] at hs'
    exact ⟨by omega, s', hs', hinput⟩
  · -- the stages after the owner are counted from the one right after it
    rintro ⟨hlt, s', hs', hinput⟩
    have howner : owner < p.stages.length := by
      have hreader := (List.getElem?_eq_some_iff.1 hs').1
      omega
    have hbetween : owner + 1 + (reader - (owner + 1)) = reader := by omega
    refine ⟨_, owner, by rw [List.getElem?_eq_getElem howner]; rfl, ⟨reader - (owner + 1), port⟩,
      mem_outletsFrom.2 ⟨s', ?_, hinput⟩, rfl, hbetween, rfl⟩
    rw [List.getElem?_drop, hbetween, hs']

/-- The outlets of the network are the ports of the stages. -/
theorem wires_perm_reads (h : ∀ (number : Nat) (s : PlannedStage), p.stages[number]? = some s →
    ∀ input ∈ s.inputs, input < number) : (wires p.network.processes).Perm (reads p.stages) := by
  -- neither side lists a port twice, so it is enough that they list the same ones
  rw [List.perm_ext_iff_of_nodup (nodup_wires p) (nodup_reads p.stages)]
  rintro ⟨owner, reader, port⟩
  rw [mem_wires, and_iff_right_iff_imp, mem_reads]
  rintro ⟨s, hs, hinput⟩
  exact h reader s hs owner (List.mem_of_getElem? hinput)

end SeriesPipeline.Plan
