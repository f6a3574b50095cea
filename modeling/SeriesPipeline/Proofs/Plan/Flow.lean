import SeriesPipeline.Proofs.Plan.Acceptance
import SeriesPipeline.Proofs.Plan.Shape
import SeriesPipeline.Proofs.Task.Histories

/-!
# The flow through a plan

In every execution of a plan, what arrives at a port is what the stage that it reads from sends on
the outlet to it, and a source gets what it is given from outside.
-/

namespace SeriesPipeline

/-- Whether a stage of the kind has several inputs. -/
def NodeKind.combines : NodeKind → Bool
  | .join _ | .union _ => true
  | _ => false

theorem Node.HasArity.length_inputs {n : Node} (h : n.HasArity) :
    (∀ s, n.kind = .source s → n.inputs.length = 0) ∧
      (n.kind.combines = false → n.inputs.length ≤ 1) := by
  obtain ⟨id, kind, inputs⟩ := n
  cases kind with
  | source s => exact ⟨fun _ _ => h, fun _ => le_of_eq_of_le h (Nat.zero_le 1)⟩
  | join j => exact ⟨nofun, nofun⟩
  | union u => exact ⟨nofun, nofun⟩
  | _ => exact ⟨nofun, fun _ => le_of_eq h⟩

namespace Plan

variable {b : Blueprint} {settings : Settings} {p : Plan}

/-- What holds for the stages of every valid node holds for all stages of a plan. -/
theorem forall_mem_stages {P : PlannedStage → Prop} (h : ofBlueprint b settings = .ok p)
    (hnodes : ∀ n : Node, n.HasArity → n.kind.Valid n.inputs.length → ∀ number (inputs : List Nat),
      inputs.length ≤ n.inputs.length → ∀ s ∈ stagesOf n number inputs, P s) :
    ∀ s ∈ p.stages, P s := by
  obtain ⟨order, hcheck, -, rfl⟩ := of_ofBlueprint_eq_ok h
  have hvalid := Blueprint.check_eq_ok_iff.1 hcheck
  refine forall_mem_foldl_place (fun _ hs => absurd hs List.not_mem_nil) fun n hn => ?_
  obtain ⟨id, -, hid⟩ := List.mem_filterMap.1 hn
  obtain ⟨hmem, -⟩ := Blueprint.mem_nodes_of_node?_eq_some hid
  exact hnodes n (hvalid.arity n hmem) (hvalid.parameters n hmem)

/-- A source reads from no stage, and only joins and unions from more than one. -/
theorem inputs_of_mem_stages (h : ofBlueprint b settings = .ok p) {s : PlannedStage}
    (hs : s ∈ p.stages) : (∀ n, s.kind = .source n → s.inputs = []) ∧
      (s.kind.combines = false → s.inputs.length ≤ 1) := by
  refine forall_mem_stages (P := fun s => (∀ n, s.kind = .source n → s.inputs = []) ∧
    (s.kind.combines = false → s.inputs.length ≤ 1)) h ?_ s hs
  intro n harity _ number inputs hlength s hs
  rw [stagesOf_eq, List.mem_cons, Option.mem_toList] at hs
  rcases hs with rfl | hs
  · obtain ⟨hsource, hone⟩ := harity.length_inputs
    refine ⟨fun source hkind => ?_, fun hkind => hlength.trans (hone hkind)⟩
    exact List.length_eq_zero_iff.1 (Nat.le_zero.1 (hsource source hkind ▸ hlength))
  · obtain ⟨w, -, rfl⟩ := Option.map_eq_some_iff.1 hs
    refine ⟨?_, fun _ => Nat.le_refl 1⟩
    rintro n ⟨⟩

/-- A plan's processes have neither received nor sent anything at its start. -/
theorem isNew_of_mem_network (p : Plan) : ∀ process ∈ p.network.processes, process.IsNew := by
  intro process hprocess
  obtain ⟨k, hk⟩ := List.mem_iff_getElem?.1 hprocess
  rw [getElem?_processes] at hk
  obtain ⟨s, -, rfl⟩ := Option.map_eq_some_iff.1 hk
  exact ⟨rfl, rfl, rfl⟩

/-! ## Messages from outside -/

/-- Only sources are given anything from outside. -/
def Feeds (p : Plan) (given : Nat → List Message) : Prop :=
  ∀ k, given k ≠ [] → k ∈ p.inlets.map (·.process)

theorem exists_source_of_mem_inlets {k : Nat} (h : k ∈ p.inlets.map (·.process)) :
    ∃ s n, p.stages[k]? = some s ∧ s.kind = .source n := by
  obtain ⟨inlet, hinlet, rfl⟩ := List.mem_map.1 h
  rw [inlets, List.reduceOption_mem_iff] at hinlet
  obtain ⟨k, hk⟩ := List.mem_iff_getElem?.1 hinlet
  rw [List.getElem?_mapIdx] at hk
  obtain ⟨s, hs, hsource⟩ := Option.map_eq_some_iff.1 hk
  rw [inlet?] at hsource
  split at hsource
  · rename_i n hkind
    cases hsource
    exact ⟨s, n, hs, hkind⟩
  · cases hsource

/-- A stage with an input is given nothing from outside. -/
theorem Feeds.eq_nil {given : Nat → List Message} (hfeeds : p.Feeds given)
    (h : ofBlueprint b settings = .ok p) {k : Nat} {s : PlannedStage} (hs : p.stages[k]? = some s)
    (hinputs : s.inputs ≠ []) : given k = [] := by
  by_contra hgiven
  obtain ⟨s', n, hs', hn⟩ := exists_source_of_mem_inlets (hfeeds k hgiven)
  rw [hs] at hs'
  cases hs'
  exact hinputs ((inputs_of_mem_stages h (List.mem_of_getElem? hs)).1 n hn)

end Plan

namespace Execution

variable {p : Plan} {given : Nat → List Message} {x : Execution}

theorem Reached.fed_notMem (h : x.Reached p.network given) {k : Nat} (hgiven : given k = [])
    (m : Message) : .fed k m ∉ x.log := by
  intro hmem
  have hfed := mem_fedTo.2 hmem
  rw [(List.append_eq_nil_iff.1 ((h.feeds k).symm.trans hgiven)).1] at hfed
  cases hfed

/-- A process of a stage has a history, and nothing else acts. -/
theorem Reached.follows (h : x.Reached p.network given) {k : Nat} {s : PlannedStage}
    (hs : p.stages[k]? = some s) : ∃ process, x.network.processes[k]? = some process ∧
      (p.process k s).Follows (historyOf k x.log) process := by
  have hrel := h.processes k
  rw [Plan.getElem?_processes, hs, Option.map_some] at hrel
  cases hprocess : x.network.processes[k]? with
  | none =>
    rw [hprocess] at hrel
    cases hrel
  | some process =>
    rw [hprocess] at hrel
    cases hrel with
    | some hfollows => exact ⟨process, rfl, hfollows⟩

theorem Reached.getElem?_eq_none (h : x.Reached p.network given) {k : Nat}
    (hk : p.stages[k]? = none) : x.network.processes[k]? = none := by
  have hrel := h.processes k
  rw [Plan.getElem?_processes, hk, Option.map_none] at hrel
  cases hprocess : x.network.processes[k]? with
  | none => rfl
  | some process =>
    rw [hprocess] at hrel
    cases hrel

theorem Reached.exists_stage (h : x.Reached p.network given) {event : Event}
    (hevent : event ∈ x.log) {k : Nat} (hk : k ∈ event.actor?) : ∃ s, p.stages[k]? = some s := by
  have hlt := h.actors event hevent k hk
  rw [Plan.network, List.length_mapIdx] at hlt
  exact ⟨_, List.getElem?_eq_getElem hlt⟩

/-- Nothing but the stages of the plan acts. -/
theorem Reached.idle (h : x.Reached p.network given) {k : Nat} (hk : p.stages[k]? = none) :
    sendings (historyOf k x.log) = [] ∧ reactions (historyOf k x.log) = [] := by
  have habsent : ∀ event ∈ x.log, k ∉ event.actor? := by
    intro event hevent hactor
    obtain ⟨s, hs⟩ := h.exists_stage hevent hactor
    rw [hk] at hs
    cases hs
  constructor
  · refine List.eq_nil_iff_forall_not_mem.2 fun e he => habsent _ (mem_sendings.1 he) rfl
  · refine List.eq_nil_iff_forall_not_mem.2 fun reaction hreaction => ?_
    obtain ⟨e, he⟩ := mem_reactions.1 hreaction
    exact habsent _ he rfl

/-- A message is sent to a port that reads from its sender. -/
theorem Reached.reads (h : x.Reached p.network given) {i : Nat} {outlet : Outlet} {m : Message}
    (hsent : .sent i outlet m ∈ x.log) :
    ∃ s, p.stages[i + 1 + outlet.between]? = some s ∧ s.inputs[outlet.port]? = some i := by
  obtain ⟨s, hs⟩ := h.exists_stage hsent rfl
  obtain ⟨process, -, hfollows⟩ := h.follows hs
  have hmem := ((List.prefix_append _ _).trans hfollows.sent).subset (mem_sendings.2 hsent)
  obtain ⟨m', -, hout⟩ := List.mem_flatMap.1 hmem
  obtain ⟨o, ho, heq⟩ := List.mem_map.1 hout
  cases heq
  obtain ⟨s', hs', hinput⟩ := Plan.mem_outletsFrom.1 ho
  rw [List.getElem?_drop] at hs'
  exact ⟨s', hs', hinput⟩

section Stages

variable (h : x.Reached p.network given) {k : Nat} {s : PlannedStage} (hs : p.stages[k]? = some s)
include h hs

/-- All that arrives at a stage without inputs was given to it from outside. -/
theorem Reached.arrivals_eq_fedTo (hinputs : s.inputs = []) :
    arrivals (historyOf k x.log) = (fedTo k x.log).map (⟨0, ·⟩) := by
  apply arrivals_of_not_sent
  rintro i outlet m hsent rfl
  obtain ⟨s', hs', hinput⟩ := h.reads hsent
  rw [hs] at hs'
  cases hs'
  rw [hinputs] at hinput
  cases hinput

/-- A stage without inputs gets what it is given from outside. -/
theorem Reached.arrivals_of_source (hinputs : s.inputs = []) :
    arrivals (historyOf k x.log) <+: (given k).map (⟨0, ·⟩) := by
  rw [h.arrivals_eq_fedTo hs hinputs, h.feeds k, List.map_append]
  exact List.prefix_append _ _

/-- A port gets what is sent on the outlet to it. -/
theorem Reached.messagesAt_arrivals (hgiven : given k = []) {i port : Nat}
    (hinput : s.inputs[port]? = some i) (hlt : i < k) :
    messagesAt port (arrivals (historyOf k x.log)) =
      sentOn ⟨k - (i + 1), port⟩ (sendings (historyOf i x.log)) := by
  have hk : i + 1 + (k - (i + 1)) = k := by omega
  have harrivals := SeriesPipeline.messagesAt_arrivals i ⟨k - (i + 1), port⟩
    (fun m => hk.symm ▸ h.fed_notMem hgiven m)
    fun i' outlet' m hsent hto hport => by
      obtain ⟨s', hs', hinput'⟩ := h.reads hsent
      rw [hto, hk, hs] at hs'
      cases hs'
      rw [hport, hinput] at hinput'
      exact (Option.some.inj hinput').symm
  rwa [hk] at harrivals

/-- What arrives is for a port of the stage. -/
theorem Reached.port_lt (hgiven : given k = []) {e : Envelope}
    (he : e ∈ arrivals (historyOf k x.log)) :
    ∃ i, s.inputs[e.port]? = some i ∧ i < k := by
  rcases mem_arrivals he with ⟨m, hfed, -⟩ | ⟨i, outlet, m, hsent, rfl, rfl⟩
  · exact absurd hfed (h.fed_notMem hgiven m)
  · obtain ⟨s', hs', hinput⟩ := h.reads hsent
    rw [hs] at hs'
    cases hs'
    exact ⟨i, hinput, by omega⟩

/-- All that arrives at a stage with one input was sent by the stage that it reads from. -/
theorem Reached.arrivals_of_single (hgiven : given k = []) {i : Nat} (hinputs : s.inputs = [i])
    (hlt : i < k) : (arrivals (historyOf k x.log)).map (·.message) =
      sentOn ⟨k - (i + 1), 0⟩ (sendings (historyOf i x.log)) := by
  have hport : ∀ e ∈ arrivals (historyOf k x.log), e.port = 0 := by
    intro e he
    obtain ⟨i', hi', -⟩ := h.port_lt hs hgiven he
    have hlength := (List.getElem?_eq_some_iff.1 hi').1
    rw [hinputs] at hlength
    exact Nat.lt_one_iff.1 hlength
  have hinput : s.inputs[0]? = some i := hinputs ▸ rfl
  rw [← h.messagesAt_arrivals hs hgiven hinput hlt, messagesAt,
    List.filter_eq_self.2 fun e he => decide_eq_true (hport e he)]

end Stages

end Execution

end SeriesPipeline
