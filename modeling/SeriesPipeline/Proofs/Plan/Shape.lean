import SeriesPipeline.Proofs.Operator.Shape
import SeriesPipeline.Proofs.Plan.Wiring

/-!
# The shape of batches in a plan

The checks of a blueprint establish what the operators of its stages rely on, so every stage of a
plan gives out well-formed batches.
-/

namespace SeriesPipeline

namespace Operator

variable {distinct enclosed : Prop} {kind : NodeKind} {task node : String} {settings : Settings}
  {b : Batch}

theorem shaped_ofNode (h : Blueprint.Sound kind) :
    (ofNode task node settings kind).Shaped distinct enclosed := by
  cases kind with
  | window w => exact ⟨h.1, h.2, Windowing.allPanes_empty⟩
  | join j => exact ⟨h, SortedMap.all_empty⟩
  | union u => exact SortedMap.all_empty
  | _ => trivial

theorem suits_ofNode (hwellFormed : (∀ n, kind ≠ .source n) → b.WellFormed)
    (hcolumns : distinct → b.columns.Nodup) (hwindow : enclosed → b.Enclosed) :
    (ofNode task node settings kind).Suits distinct enclosed b := by
  cases kind with
  | source s => exact hwindow
  | _ => exact ⟨hwellFormed nofun, hcolumns, hwindow⟩

theorem of_promises_ofNode (h : (ofNode task node settings kind).Promises distinct enclosed b) :
    b.WellFormed ∧ ((∀ n, kind ≠ .join n) → distinct → b.columns.Nodup) ∧
      (enclosed → b.Enclosed) ∧ (∀ n, kind = .window n → b.Enclosed) := by
  cases kind with
  | window w => exact ⟨h.wellFormed, fun _ => h.columns, fun _ => h.window trivial,
      fun _ _ => h.window trivial⟩
  | join j => exact ⟨h.wellFormed, fun hother => absurd rfl (hother j), h.window, nofun⟩
  | _ => exact ⟨h.wellFormed, fun _ => h.columns, h.window, nofun⟩

end Operator

theorem Blueprint.sound_of_grouping? {n : Node} (h : checkNode n = .ok ()) {w : WindowNode}
    (hw : n.grouping? = some w) : Sound (.window w) := by
  rw [Node.grouping?] at hw
  cases hkind : n.kind with
  | source s =>
    rw [hkind] at hw
    obtain ⟨period, hperiod, rfl⟩ := Option.map_eq_some_iff.1 hw
    exact sound_of_source hkind h hperiod
  | _ =>
    rw [hkind] at hw
    cases hw

namespace Plan

theorem sound_of_mem_stagesOf {n : Node} (h : Blueprint.checkNode n = .ok ()) {number : Nat}
    {inputs : List Nat} {s : PlannedStage} (hs : s ∈ stagesOf n number inputs) :
    Blueprint.Sound s.kind := by
  rw [stagesOf_eq, List.mem_cons, Option.mem_toList] at hs
  rcases hs with rfl | hs
  · exact Blueprint.sound_of_checkNode h
  · obtain ⟨w, hw, rfl⟩ := Option.map_eq_some_iff.1 hs
    exact Blueprint.sound_of_grouping? h hw

theorem forall_mem_foldl_place {P : PlannedStage → Prop} {nodes : List Node} {l : Layout}
    (hl : ∀ s ∈ l.stages, P s)
    (hnodes : ∀ n ∈ nodes, ∀ number (inputs : List Nat), inputs.length ≤ n.inputs.length →
      ∀ s ∈ stagesOf n number inputs, P s) :
    ∀ s ∈ (nodes.foldl Layout.place l).stages, P s := by
  induction nodes generalizing l with
  | nil => exact hl
  | cons n rest ih =>
    refine ih (List.forall_mem_append.2 ⟨hl, ?_⟩) fun m hm => hnodes m (List.mem_cons_of_mem _ hm)
    exact hnodes n List.mem_cons_self _ _ (List.length_filterMap_le ..)

theorem sound_of_mem_stages {b : Blueprint} {settings : Settings} {p : Plan}
    (h : ofBlueprint b settings = .ok p) {s : PlannedStage} (hs : s ∈ p.stages) :
    Blueprint.Sound s.kind := by
  obtain ⟨order, hcheck, -, rfl⟩ := of_ofBlueprint_eq_ok h
  refine forall_mem_foldl_place (P := fun s => Blueprint.Sound s.kind)
    (fun _ hs => absurd hs List.not_mem_nil) (fun n hn number inputs _ s hs => ?_) s hs
  obtain ⟨id, -, hid⟩ := List.mem_filterMap.1 hn
  exact sound_of_mem_stagesOf
    (Blueprint.checkNode_of_check_eq_ok hcheck (Blueprint.mem_nodes_of_node?_eq_some hid).1) hs

/-- The operator of every stage of a plan gives out well-formed batches if it takes such ones, and
that of a source in any case. All but a join keep columns distinct, and all keep rows inside of
windows; a windowing puts them there itself. -/
theorem serve_keeps_well_formed {b : Blueprint} {settings : Settings} {p : Plan}
    (h : ofBlueprint b settings = .ok p) {s : PlannedStage} (hs : s ∈ p.stages)
    (calls : List (Instant × Request))
    (hcalls : (∀ n, s.kind ≠ .source n) →
      ∀ e ∈ Request.batches (calls.map (·.2)), e.2.WellFormed)
    {out : Emitted}
    (hout : .ok out ∈ ((Operator.ofNode p.name s.node p.settings s.kind).serve calls).2) :
    let taken := Request.batches (calls.map (·.2))
    ∀ b' ∈ out.batches, b'.WellFormed ∧
      ((∀ n, s.kind ≠ .join n) → (∀ e ∈ taken, e.2.columns.Nodup) → b'.columns.Nodup) ∧
      ((∀ e ∈ taken, e.2.Enclosed) → b'.Enclosed) ∧
      (∀ n, s.kind = .window n → b'.Enclosed) := by
  intro taken b' hb'
  have hsuits : ∀ e ∈ taken, (Operator.ofNode p.name s.node p.settings s.kind).Suits
      (∀ e ∈ taken, e.2.columns.Nodup) (∀ e ∈ taken, e.2.Enclosed) e.2 := fun e he =>
    Operator.suits_ofNode (fun hkind => hcalls hkind e he) (fun h => h e he) fun h => h e he
  exact Operator.of_promises_ofNode
    ((Operator.shaped_ofNode (sound_of_mem_stages h hs)).serve hsuits hout b' hb')

/-- A union of two batches with different columns for one window. -/
theorem serve_keeps_well_formed_unionOfTwo :
    let batch (column : String) (t : Int64) : Batch :=
      ⟨"m", ∅, [column], [⟨⟨t⟩, [.null]⟩], some ⟨⟨0⟩, ⟨10⟩⟩⟩
    let merged := (Merging.mk none ∅).merge ⟨⟨⟨0⟩, ⟨10⟩⟩, ∅⟩ [(0, batch "x" 7), (1, batch "y" 3)]
    merged.WellFormed ∧ merged.columns.Nodup ∧ merged.Enclosed := by
  intro batch merged
  have hplan : ofBlueprint unionOfTwo .standard = .ok planOfUnion := by
    with_unfolding_all rfl
  let stage : PlannedStage := ⟨"u", "u", .union ⟨none⟩, [0, 2]⟩
  have hstage : stage ∈ planOfUnion.stages := List.mem_of_getElem? (i := 3) rfl
  have hbatch : ∀ column t, (⟨⟨0⟩, ⟨10⟩⟩ : Window).contains ⟨t⟩ = true →
      (batch column t).WellFormed ∧ (batch column t).columns.Nodup ∧ (batch column t).Enclosed := by
    intro column t ht
    refine ⟨⟨List.cons_ne_nil _ _, ?_, List.pairwise_singleton _ _⟩, List.nodup_singleton _, _,
      rfl, List.forall_mem_singleton.2 ht⟩
    exact fun r hr => List.mem_singleton.1 hr ▸ rfl
  let calls : List (Instant × Request) :=
    [(.epoch, .batch 0 (batch "x" 7)), (.epoch, .batch 1 (batch "y" 3)), (.epoch, .watermark ⟨10⟩)]
  have htaken : ∀ e ∈ Request.batches (calls.map (·.2)),
      e.2.WellFormed ∧ e.2.columns.Nodup ∧ e.2.Enclosed :=
    List.forall_mem_cons.2 ⟨hbatch "x" 7 (by decide),
      List.forall_mem_singleton.2 (hbatch "y" 3 (by decide))⟩
  have hout : .ok ⟨[merged], [], []⟩ ∈ ((Operator.ofNode planOfUnion.name stage.node
      planOfUnion.settings stage.kind).serve calls).2 := by
    refine List.mem_of_getElem? (i := 2) ?_
    with_unfolding_all rfl
  obtain ⟨hwellFormed, hcolumns, henclosed, -⟩ := serve_keeps_well_formed hplan hstage calls
    (fun _ e he => (htaken e he).1) hout merged (List.mem_singleton_self _)
  exact ⟨hwellFormed, hcolumns nofun fun e he => (htaken e he).2.1,
    henclosed fun e he => (htaken e he).2.2⟩

end Plan

end SeriesPipeline
