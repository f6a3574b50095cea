import SeriesPipeline.Proofs.Plan.Acceptance
import SeriesPipeline.Proofs.Stage.Origins

/-!
# Names of a plan

No two stages of a plan publish under the same name, and no two have alerts of the same node.
-/

namespace SeriesPipeline

/-- The node of its alerts, for a node that has any. -/
def Node.alertNode? (n : Node) : Option String :=
  match n.kind with
  | .alert _ => some n.id
  | _ => none

theorem Operator.labels_ofNode (task node : String) (settings : Settings) (kind : NodeKind) :
    (ofNode task node settings kind).labels =
      ((Node.mk node kind []).outputName?, (Node.mk node kind []).alertNode?) := by
  cases kind <;> rfl

namespace Plan

variable {b : Blueprint} {settings : Settings} {p : Plan}

/-- What is read off the nodes of stages is read off the nodes of the blueprint, since the stages
that group rows say nothing. -/
theorem filterMap_stages {β : Type} (h : ofBlueprint b settings = .ok p)
    (f : String → NodeKind → Option β) (hf : ∀ id w, f id (.window w) = none) :
    (p.stages.filterMap fun s => f s.node s.kind).Perm
      (b.nodes.filterMap fun n => f n.id n.kind) := by
  obtain ⟨nodes, producers, hperm, hlaid⟩ := exists_laidOut h
  have houtline : (nodes.flatMap outline).filterMap (fun e => f e.2.1 e.2.2) =
      nodes.filterMap fun n => f n.id n.kind := by
    rw [List.filterMap_flatMap, List.filterMap_eq_flatMap_toList]
    refine List.flatMap_congr fun n _ => ?_
    rw [outline, List.filterMap_cons]
    have hgrouping : (n.grouping?.map fun w =>
        (groupingId n.id, n.id, NodeKind.window w)).toList.filterMap
          (fun e => f e.2.1 e.2.2) = [] := by
      cases n.grouping? with
      | none => rfl
      | some w => exact List.filterMap_cons_none (hf n.id w)
    rw [hgrouping]
    cases f n.id n.kind <;> rfl
  have hstages : (p.stages.filterMap fun s => f s.node s.kind) =
      nodes.filterMap fun n => f n.id n.kind := by
    rw [← houtline, ← hlaid.outline, List.filterMap_map]
    rfl
  rw [hstages]
  exact hperm.filterMap _

theorem eq_of_nodup_filterMap {α β : Type} {f : α → Option β} {l : List α}
    (hnodup : (l.filterMap f).Nodup) {i j : Nat} {a a' : α} {c : β} (hi : l[i]? = some a)
    (hj : l[j]? = some a') (ha : f a = some c) (ha' : f a' = some c) : i = j := by
  have hpairwise := List.pairwise_iff_getElem.1 (List.pairwise_filterMap.1 hnodup)
  obtain ⟨hilt, rfl⟩ := List.getElem?_eq_some_iff.1 hi
  obtain ⟨hjlt, rfl⟩ := List.getElem?_eq_some_iff.1 hj
  rcases Nat.lt_trichotomy i j with hlt | heq | hlt
  · exact absurd rfl (hpairwise i j hilt hjlt hlt c ha c ha')
  · exact heq
  · exact absurd rfl (hpairwise j i hjlt hilt hlt c ha' c ha)

/-- The name under which a stage publishes, and the node of its alerts. -/
def labelsOf (s : PlannedStage) : Option String × Option String :=
  ((Node.mk s.node s.kind []).outputName?, (Node.mk s.node s.kind []).alertNode?)

section Distinct

variable (h : ofBlueprint b settings = .ok p) {i j : Nat} {s t : PlannedStage} {name : String}
  (hs : p.stages[i]? = some s) (ht : p.stages[j]? = some t)
include h hs ht

theorem eq_of_outputName (hsname : (labelsOf s).1 = some name)
    (htname : (labelsOf t).1 = some name) : i = j := by
  obtain ⟨order, hcheck, -, -⟩ := of_ofBlueprint_eq_ok h
  have hnodup := (filterMap_stages h (fun node kind => (Node.mk node kind []).outputName?)
    fun _ _ => rfl).nodup_iff.2 (Blueprint.check_eq_ok_iff.1 hcheck).distinctOutputs
  exact eq_of_nodup_filterMap hnodup hs ht hsname htname

theorem eq_of_alertNode (hsname : (labelsOf s).2 = some name)
    (htname : (labelsOf t).2 = some name) : i = j := by
  obtain ⟨order, hcheck, -, -⟩ := of_ofBlueprint_eq_ok h
  have hids : (b.nodes.filterMap Node.alertNode?).Nodup := by
    have hnodup := List.pairwise_map.1 (Blueprint.check_eq_ok_iff.1 hcheck).distinctIds
    refine List.pairwise_filterMap.2 (hnodup.imp fun hne name hname name' hname' => ?_)
    rw [Node.alertNode?] at hname hname'
    split at hname <;> cases hname
    split at hname' <;> cases hname'
    exact hne
  have hnodup := (filterMap_stages h (fun node kind => (Node.mk node kind []).alertNode?)
    fun _ _ => rfl).nodup_iff.2 hids
  exact eq_of_nodup_filterMap hnodup hs ht hsname htname

end Distinct

end Plan

end SeriesPipeline
