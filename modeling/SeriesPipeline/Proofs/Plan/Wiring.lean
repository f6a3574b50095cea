import Mathlib.Data.List.Induction
import Mathlib.Tactic.Set
import SeriesPipeline.Proofs.Plan.Check
import SeriesPipeline.Proofs.Plan.Layout
import SeriesPipeline.Proofs.Plan.Outlets

/-!
# The wiring of plans

A plan has the stages of every node of its blueprint, and every port reads from the stage that
stands for the input of the node.
-/

namespace SeriesPipeline

namespace Blueprint

variable {b : Blueprint}

theorem mem_nodes_of_node?_eq_some {id : String} {n : Node} (h : b.node? id = some n) :
    n ∈ b.nodes ∧ n.id = id := by
  have hid := List.find?_some (p := fun n : Node => decide (n.id = id)) h
  exact ⟨List.mem_of_find?_eq_some h, of_decide_eq_true hid⟩

theorem node?_isSome_iff {id : String} : (b.node? id).isSome ↔ id ∈ b.ids := by
  rw [node?, List.find?_isSome, ids, List.mem_map]
  simp only [decide_eq_true_eq]

variable {order : List String} (hids : b.ids.Nodup) (horder : order.Perm b.ids)

include hids in
theorem node?_eq_some_of_mem {n : Node} (hn : n ∈ b.nodes) : b.node? n.id = some n := by
  obtain ⟨m, hm⟩ := Option.isSome_iff_exists.1 (node?_isSome_iff.2 (List.mem_map_of_mem hn))
  obtain ⟨hmem, hid⟩ := mem_nodes_of_node?_eq_some hm
  rw [hm, List.inj_on_of_nodup_map hids hmem hn hid]

include horder

theorem map_id_filterMap_node? : (order.filterMap b.node?).map (·.id) = order := by
  have hsome : ∀ id ∈ order, (b.node? id).map (·.id) = some id := by
    intro id hid
    obtain ⟨n, hn⟩ := Option.isSome_iff_exists.1 (node?_isSome_iff.2 (horder.mem_iff.1 hid))
    rw [hn, Option.map_some, (mem_nodes_of_node?_eq_some hn).2]
  rw [List.map_filterMap]
  exact (List.filterMap_congr hsome).trans List.filterMap_some

include hids

/-- In order, the nodes are those of the blueprint. -/
theorem filterMap_node?_perm : (order.filterMap b.node?).Perm b.nodes := by
  have hmap := map_id_filterMap_node? horder
  have hnodup : ((order.filterMap b.node?).map (·.id)).Nodup := by
    rw [hmap]
    exact horder.nodup_iff.2 hids
  refine (List.perm_ext_iff_of_nodup (List.Nodup.of_map _ hnodup) (List.Nodup.of_map _ hids)).2
    fun n => ?_
  rw [List.mem_filterMap]
  constructor
  · rintro ⟨id, -, hn⟩
    exact (mem_nodes_of_node?_eq_some hn).1
  · intro hn
    exact ⟨n.id, horder.mem_iff.2 (List.mem_map_of_mem hn), node?_eq_some_of_mem hids hn⟩

end Blueprint

namespace Plan

/-- Nodes that come after their inputs are laid out. -/
theorem laidOut_foldl {nodes : List Node} (hids : (nodes.map (·.id)).Nodup)
    (hinputs : ∀ before n after, nodes = before ++ n :: after →
      ∀ input ∈ n.inputs, ∃ m ∈ before, m.id = input) :
    LaidOut nodes (nodes.foldl Layout.place ⟨[], []⟩) := by
  -- from the end, since a node needs all that come before it to be laid out
  induction nodes using List.reverseRecOn with
  | nil => exact laidOut_nil
  | append_singleton nodes n ih =>
    rw [List.map_append, List.nodup_append] at hids
    have hlaid := ih hids.1 fun before m after heq => by
      refine hinputs before m (after ++ [n]) ?_
      rw [heq, List.append_assoc, List.cons_append]
    rw [List.foldl_append]
    refine hlaid.place (hinputs nodes n [] rfl) fun m hm => ?_
    exact hids.2.2 m.id (List.mem_map_of_mem hm) n.id List.mem_cons_self

theorem mem_groupingId (id : String) : '/' ∈ (groupingId id).toList := by
  have hslash : '/' ∈ "/group_by".toList := by simp
  rw [groupingId, String.toList_append]
  exact List.mem_append_right _ hslash

theorem groupingId_inj {id id' : String} (h : groupingId id = groupingId id') : id = id' :=
  String.append_left_inj _ |>.1 h

theorem eq_or_eq_of_mem_outline {n : Node} {id : String} (h : id ∈ (outline n).map (·.1)) :
    id = n.id ∨ id = groupingId n.id := by
  rw [outline] at h
  cases hg : n.grouping? with
  | none =>
    rw [hg] at h
    exact .inl (List.mem_singleton.1 h)
  | some w =>
    rw [hg] at h
    exact (List.mem_cons.1 h).imp_right List.mem_singleton.1

/-- The ids of stages are distinct, since the ids of nodes are and have no slash. -/
theorem nodup_outlines {nodes : List Node} (hids : (nodes.map (·.id)).Nodup)
    (hslash : ∀ n ∈ nodes, '/' ∉ n.id.toList) :
    ((nodes.flatMap outline).map (·.1)).Nodup := by
  have hne : ∀ n ∈ nodes, ∀ id, n.id ≠ groupingId id := by
    intro n hn id heq
    exact hslash n hn (heq ▸ mem_groupingId id)
  rw [List.map_flatMap, List.nodup_flatMap]
  constructor
  · intro n hn
    rw [outline]
    cases n.grouping? with
    | none => exact List.nodup_singleton _
    | some w =>
      refine List.nodup_cons.2 ⟨fun hmem => ?_, List.nodup_singleton _⟩
      exact hne n hn _ (List.mem_singleton.1 hmem)
  · refine (List.pairwise_map.1 hids).imp_of_mem fun {m n} hm hn hmn id hid hid' => ?_
    rcases eq_or_eq_of_mem_outline hid with rfl | rfl
    · rcases eq_or_eq_of_mem_outline hid' with heq | heq
      · exact hmn heq
      · exact hne m hm _ heq
    · rcases eq_or_eq_of_mem_outline hid' with heq | heq
      · exact hne n hn _ heq.symm
      · exact hmn (groupingId_inj heq)

theorem of_ofBlueprint_eq_ok {b : Blueprint} {settings : Settings} {p : Plan}
    (h : ofBlueprint b settings = .ok p) : ∃ order, b.check = .ok () ∧ b.order = .ok order ∧
      p = ⟨b.name, settings, layOut b order, b.outputNames⟩ := by
  rw [ofBlueprint] at h
  split at h
  · cases h
  · split at h
    · cases h
    · rename_i hcheck
      split at h
      · cases h
      · rename_i order horder
        cases h
        exact ⟨order, hcheck, horder, rfl⟩

/-- A plan lays out the nodes of its blueprint, in some order. -/
theorem exists_laidOut {b : Blueprint} {settings : Settings} {p : Plan}
    (h : ofBlueprint b settings = .ok p) :
    ∃ nodes producers, nodes.Perm b.nodes ∧ LaidOut nodes ⟨p.stages, producers⟩ := by
  obtain ⟨order, hcheck, horder, rfl⟩ := of_ofBlueprint_eq_ok h
  obtain ⟨hids, -⟩ := Blueprint.of_check_eq_ok hcheck
  obtain ⟨hperm, hbefore⟩ := Blueprint.of_order_eq_ok hids horder
  set nodes := order.filterMap b.node? with hnodes
  have hmap : nodes.map (·.id) = order := Blueprint.map_id_filterMap_node? hperm
  have hnodesPerm : nodes.Perm b.nodes := Blueprint.filterMap_node?_perm hids hperm
  have hnodesIds : (nodes.map (·.id)).Nodup := by
    rw [hmap]
    exact hperm.nodup_iff.2 hids
  refine ⟨nodes, _, hnodesPerm, laidOut_foldl hnodesIds fun before n after heq input hinput => ?_⟩
  have hn : n ∈ b.nodes := hnodesPerm.mem_iff.1 (heq ▸ List.mem_append_right _ List.mem_cons_self)
  have horder' : order = before.map (·.id) ++ n.id :: after.map (·.id) := by
    rw [← hmap, heq, List.map_append, List.map_cons]
  have hinputs : b.inputsOf n.id = n.inputs := by
    rw [Blueprint.inputsOf, Blueprint.node?_eq_some_of_mem hids hn]
  exact List.mem_map.1 (hbefore _ _ _ horder' input (hinputs ▸ hinput))

/-- The ids of a plan's stages are distinct. -/
theorem nodup_ids {b : Blueprint} {settings : Settings} {p : Plan}
    (h : ofBlueprint b settings = .ok p) : (p.stages.map (·.id)).Nodup := by
  obtain ⟨nodes, producers, hnodes, hlaid⟩ := exists_laidOut h
  obtain ⟨order, hcheck, -, rfl⟩ := of_ofBlueprint_eq_ok h
  obtain ⟨hids, hslash⟩ := Blueprint.of_check_eq_ok hcheck
  -- ids of nodes have no slash, and those of grouping stages do
  have houtline := nodup_outlines ((hnodes.map _).nodup_iff.2 hids) fun n hn =>
    hslash n (hnodes.mem_iff.1 hn)
  rw [← hlaid.outline, List.map_map] at houtline
  exact houtline

/-- Every blueprint that passes is wired as it says: its nodes have one stage each, right before the
stage that groups its rows if it is a source with a period; a port reads from the stage that stands
for the node's input, which comes before; and each port has one outlet, at that stage. -/
theorem ofBlueprint_wires {b : Blueprint} {settings : Settings} {p : Plan}
    (h : ofBlueprint b settings = .ok p) :
    (∃ nodes : List Node, nodes.Perm b.nodes ∧
      p.stages.map (fun s => (s.id, s.node, s.kind)) = nodes.flatMap outline) ∧
    (p.stages.map (·.id)).Nodup ∧
    (∀ (number : Nat) (s : PlannedStage), p.stages[number]? = some s →
      ∀ input ∈ s.inputs, input < number) ∧
    (∀ n ∈ b.nodes, Wired b.nodes p.stages n) ∧
    p.network.processes.map (·.stage.id) = p.stages.map (·.id) ∧
    (wires p.network.processes).Perm (reads p.stages) := by
  obtain ⟨nodes, producers, hnodesPerm, hlaid⟩ := exists_laidOut h
  refine ⟨⟨nodes, hnodesPerm, hlaid.outline⟩, nodup_ids h, hlaid.before, ?_, ?_,
    wires_perm_reads hlaid.before⟩
  · exact fun n hn => (hlaid.wired n (hnodesPerm.mem_iff.2 hn)).mono hnodesPerm.subset
  · apply List.ext_getElem?
    intro number
    rw [List.getElem?_map, List.getElem?_map, getElem?_processes, Option.map_map]
    rfl

/-- A union declared before its inputs, one of which has a period. -/
def unionOfTwo : Blueprint :=
  ⟨"p", [⟨"u", .union ⟨none⟩, ["t", "s"]⟩,
    ⟨"s", .source ⟨none, none, some ⟨10⟩, .empty, none⟩, []⟩,
    ⟨"t", .source ⟨none, none, none, .empty, none⟩, []⟩]⟩

def planOfUnion : Plan :=
  ⟨"p", .standard, [⟨"t", "t", .source ⟨none, none, none, .empty, none⟩, []⟩,
    ⟨"s", "s", .source ⟨none, none, some ⟨10⟩, .empty, none⟩, []⟩,
    ⟨"s/group_by", "s", .window ⟨⟨10⟩, none, .empty⟩, [1]⟩,
    ⟨"u", "u", .union ⟨none⟩, [0, 2]⟩], []⟩

theorem ofBlueprint_wires_unionOfTwo :
    ofBlueprint unionOfTwo .standard = .ok planOfUnion ∧
    (planOfUnion.stages.map (·.id)).Nodup ∧
    (∀ n ∈ unionOfTwo.nodes, Wired unionOfTwo.nodes planOfUnion.stages n) ∧
    (wires planOfUnion.network.processes).Perm [(1, 2, 0), (0, 3, 0), (2, 3, 1)] := by
  have hplan : ofBlueprint unionOfTwo .standard = .ok planOfUnion := by
    with_unfolding_all rfl
  obtain ⟨-, hids, -, hwired, -, hperm⟩ := ofBlueprint_wires hplan
  exact ⟨hplan, hids, hwired, hperm⟩

end Plan

end SeriesPipeline
