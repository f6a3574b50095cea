import SeriesPipeline.Proofs.Plan.Cycles

/-!
# Which blueprints have a plan

A blueprint has a plan exactly when the settings and the blueprint are valid and no node reaches
itself. Once all else is valid, a cycle is reported exactly when there is one, and for a node that
is on one.
-/

namespace SeriesPipeline

/-- Settings within their bounds. -/
structure Settings.Valid (s : Settings) : Prop where
  queueCapacity : 1 ≤ s.queueCapacity
  joinHorizon : 1 ≤ s.joinHorizon
  windowHorizon : ∀ horizon ∈ s.windowHorizon, 1 ≤ horizon
  alertHistory : 2 ≤ s.alertHistory

theorem Settings.check_eq_ok_iff {s : Settings} : s.check = .ok () ↔ s.Valid := by
  rw [check]
  constructor
  · intro h
    split at h
    · cases h
    · split at h
      · cases h
      · split at h
        · cases h
        · split at h
          · cases h
          · rename_i hqueue hjoin hwindow halert
            refine ⟨by omega, by omega, ?_, by omega⟩
            rintro horizon hhorizon
            rw [Option.mem_def.1 hhorizon, Option.some.injEq] at hwindow
            omega
  · rintro ⟨hqueue, hjoin, hwindow, halert⟩
    have hzero : s.windowHorizon ≠ some 0 := fun h => absurd (hwindow 0 h) (by omega)
    rw [if_neg (by omega), if_neg (by omega), if_neg hzero, if_neg (by omega)]

/-- A time bucket, if there is one, is not empty. -/
def Grouping.Valid (g : Grouping) : Prop := ∀ bucket ∈ g.bucket, 1 ≤ bucket.nanos

/-- The parameters of a node with so many inputs are in their domain. -/
def NodeKind.Valid (inputs : Nat) : NodeKind → Prop
  | .source s => (∀ period ∈ s.period, 1 ≤ period.nanos) ∧
      (s.period = none → s.grouping = .empty) ∧ s.grouping.Valid
  | .window w => 1 ≤ w.period.nanos ∧ (∀ every ∈ w.every?, 1 ≤ every.nanos) ∧ w.grouping.Valid
  | .join j => j.aliases.length = inputs ∧ "" ∉ j.aliases ∧ j.aliases.Nodup ∧
      ∀ horizon ∈ j.horizon, 1 ≤ horizon
  | .union u => "" ∉ u.name
  | .reduce r => (∀ p, r.reduce = .percentile p → 0.0 ≤ p ∧ p ≤ 100.0) ∧
      (r.map = .identity → r.field ≠ none)
  | .alert a => (∀ f ∈ a.flapping, 0.0 ≤ f.low ∧ f.low ≤ f.high ∧ f.high ≤ 100.0) ∧
      ∀ levels ∈ a.history, 2 ≤ levels
  | .cache c => "" ∉ c.name
  | .output o => o.name ≠ ""

/-- Sources read from no node, joins and unions from at least two, and all others from one. -/
def Node.HasArity (n : Node) : Prop :=
  match n.kind with
  | .source _ => n.inputs.length = 0
  | .join _ | .union _ => 2 ≤ n.inputs.length
  | _ => n.inputs.length = 1

namespace Blueprint

/-- All that is asked of a blueprint, apart from cycles. -/
structure Valid (b : Blueprint) : Prop where
  named : Text.isBlankText b.name = false
  nodes : b.nodes ≠ []
  ids : ∀ n ∈ b.nodes, Text.isBlankText n.id = false ∧ '/' ∉ n.id.toList
  distinctIds : b.ids.Nodup
  inputs : ∀ n ∈ b.nodes, ∀ input ∈ n.inputs, input ≠ n.id ∧ input ∈ b.ids
  distinctInputs : ∀ n ∈ b.nodes, n.inputs.Nodup
  arity : ∀ n ∈ b.nodes, n.HasArity
  parameters : ∀ n ∈ b.nodes, n.kind.Valid n.inputs.length
  outputs : ∀ m ∈ b.nodes, ∀ n ∈ b.nodes, m.kind.isOutput = true → m.id ∉ n.inputs
  distinctOutputs : b.outputNames.Nodup

variable {b : Blueprint}

/-! ## Single checks -/

theorem checkName_eq_ok_iff :
    b.checkName = .ok () ↔ Text.isBlankText b.name = false ∧ b.nodes ≠ [] := by
  rw [checkName, bind_eq_ok_iff, refuse_eq_ok_iff, refuse_eq_ok_iff, List.isEmpty_eq_false_iff]

theorem checkInputs_eq_ok_iff {id : String} {seen inputs : List String} :
    checkInputs b id seen inputs = .ok () ↔
      (∀ input ∈ inputs, (input ≠ id ∧ input ∈ b.ids) ∧ input ∉ seen) ∧ inputs.Nodup := by
  rw [eq_ok_iff_of_seen (fun input => input ≠ id ∧ input ∈ b.ids) (fun input => input)
    (fun _ => rfl) fun seen input rest => ?_, List.map_id']
  rw [checkInputs, bind_eq_ok_iff, refuse_eq_ok_iff, bind_eq_ok_iff, refuse_eq_ok_iff,
    bind_eq_ok_iff, refuse_eq_ok_iff, contains_eq_false_iff, decide_eq_false_iff_not,
    ← node?_isSome_iff, Option.isNone_eq_false_iff, and_assoc, and_assoc]

theorem checkEdges_eq_ok_iff : b.checkEdges = .ok () ↔
    (∀ n ∈ b.nodes, ∀ input ∈ n.inputs, input ≠ n.id ∧ input ∈ b.ids) ∧
      ∀ n ∈ b.nodes, n.inputs.Nodup := by
  rw [checkEdges, forM_eq_ok_iff, ← forall₂_and]
  refine forall₂_congr fun n _ => ?_
  rw [checkInputs_eq_ok_iff]
  simp only [List.not_mem_nil, not_false_eq_true, and_true]

theorem checkArity_eq_ok_iff {n : Node} : checkArity n = .ok () ↔ n.HasArity := by
  rw [checkArity, Node.HasArity]
  cases n.kind <;>
    simp only [refuse_eq_ok_iff, decide_eq_false_iff_not, ne_eq, not_not, Nat.not_lt]

theorem isZero_eq_false_iff {d : Span} : d.isZero = false ↔ 1 ≤ d.nanos := by
  rw [Span.isZero, decide_eq_false_iff_not, Nat.one_le_iff_ne_zero]

theorem checkGrouping_eq_ok_iff {id : String} {g : Grouping} :
    checkGrouping id g = .ok () ↔ g.Valid := by
  rw [checkGrouping, refuse_eq_ok_iff, Option.any_eq_false]
  simp only [isZero_eq_false_iff]
  rfl

theorem checkAliases_eq_ok_iff {id : String} {seen aliases : List String} :
    checkAliases id seen aliases = .ok () ↔
      (∀ a ∈ aliases, a ≠ "" ∧ a ∉ seen) ∧ aliases.Nodup := by
  rw [eq_ok_iff_of_seen (fun a => a ≠ "") (fun a => a) (fun _ => rfl) fun seen a rest => ?_,
    List.map_id']
  rw [checkAliases, bind_eq_ok_iff, refuse_eq_ok_iff, Bool.or_eq_false_iff, contains_eq_false_iff,
    String.isEmpty_eq_false_iff]

theorem checkOutputNames_eq_ok_iff {seen names : List String} :
    checkOutputNames seen names = .ok () ↔ (∀ name ∈ names, name ∉ seen) ∧ names.Nodup := by
  rw [eq_ok_iff_of_seen (fun _ => True) (fun name => name) (fun _ => rfl)
    fun seen name rest => ?_, List.map_id']
  · simp only [true_and]
  · rw [checkOutputNames, bind_eq_ok_iff, refuse_eq_ok_iff, contains_eq_false_iff, true_and]

theorem isEmpty_iff {g : Grouping} : g.isEmpty = true ↔ g = .empty := by
  obtain ⟨bucket, dimensions⟩ := g
  rw [Grouping.isEmpty, Bool.and_eq_true, Option.isNone_iff_eq_none, List.isEmpty_iff,
    Grouping.empty, Grouping.mk.injEq]

/-- A name that may be left out is not empty. -/
theorem any_isEmpty_eq_false_iff {name : Option String} :
    name.any String.isEmpty = false ↔ "" ∉ name := by
  cases name with
  | none => exact iff_of_true rfl nofun
  | some name => rw [Option.any_some, String.isEmpty_eq_false_iff, Option.mem_some_iff, ne_eq]

theorem checkReduce_eq_ok_iff {id : String} {r : ReduceNode} {inputs : List String} :
    checkParameters ⟨id, .reduce r, inputs⟩ = .ok () ↔
      (NodeKind.reduce r).Valid inputs.length := by
  obtain ⟨map, reduce, field, output⟩ := r
  have hasked : ∀ cause, refuse field.isNone cause = .ok () ↔
      (Mapping.identity = .identity → field ≠ none) := by
    simp only [refuse_eq_ok_iff, Option.isNone_eq_false_iff, forall_const,
      Option.ne_none_iff_isSome, implies_true]
  have hspared : ∀ {m : Mapping}, m ≠ .identity →
      ((.ok () : Checked) = .ok () ↔ (m = .identity → field ≠ none)) :=
    fun h => iff_of_true rfl fun heq => absurd heq h
  cases reduce with
  | percentile p =>
    have hpercentile : refuse (!(0.0 ≤ p && p ≤ 100.0)) (.percentile id p) = .ok () ↔
        ∀ q, Reduction.percentile p = .percentile q → 0.0 ≤ q ∧ q ≤ 100.0 := by
      simp only [refuse_eq_ok_iff, Bool.not_eq_false', Bool.and_eq_true, decide_eq_true_eq,
        Reduction.percentile.injEq, forall_eq']
    refine bind_eq_ok_iff.trans (and_congr hpercentile ?_)
    cases map with
    | identity => exact hasked _
    | count => exact hspared (by rintro ⟨⟩)
    | formula f => exact hspared (by rintro ⟨⟩)
  | _ =>
    refine Iff.trans ?_ (and_iff_right (by rintro q ⟨⟩)).symm
    cases map with
    | identity => exact hasked _
    | count => exact hspared (by rintro ⟨⟩)
    | formula f => exact hspared (by rintro ⟨⟩)

theorem checkAlert_eq_ok_iff {id : String} {a : AlertNode} {inputs : List String} :
    checkParameters ⟨id, .alert a, inputs⟩ = .ok () ↔ (NodeKind.alert a).Valid inputs.length := by
  obtain ⟨predicate, flapping, history, target⟩ := a
  have hhistory : refuse (history.any (· < 2)) (.shortHistory id) = .ok () ↔
      ∀ levels ∈ history, 2 ≤ levels := by
    simp only [refuse_eq_ok_iff, Option.any_eq_false, decide_eq_false_iff_not, Nat.not_lt,
      Option.mem_def]
  cases flapping with
  | none => exact hhistory.trans (and_iff_right nofun).symm
  | some f =>
    have hbounds : refuse (!(0.0 ≤ f.low && f.low ≤ f.high && f.high ≤ 100.0))
        (.flapping id f.low f.high) = .ok () ↔
        ∀ g ∈ some f, 0.0 ≤ g.low ∧ g.low ≤ g.high ∧ g.high ≤ 100.0 := by
      simp only [refuse_eq_ok_iff, Bool.not_eq_false', Bool.and_eq_true, decide_eq_true_eq,
        Option.mem_some_iff, forall_eq', and_assoc]
    exact bind_eq_ok_iff.trans (and_congr hbounds hhistory)

theorem checkParameters_eq_ok_iff {n : Node} :
    checkParameters n = .ok () ↔ n.kind.Valid n.inputs.length := by
  obtain ⟨id, kind, inputs⟩ := n
  cases kind with
  | source s =>
    have hgrouping : (s.period.isNone && !s.grouping.isEmpty) = false ↔
        (s.period = none → s.grouping = .empty) := by
      rw [← isEmpty_iff, ← Option.isNone_iff_eq_none]
      cases s.period.isNone <;> simp
    rw [checkParameters, bind_eq_ok_iff, refuse_eq_ok_iff, bind_eq_ok_iff, refuse_eq_ok_iff,
      checkGrouping_eq_ok_iff, Option.any_eq_false, hgrouping]
    simp only [isZero_eq_false_iff]
    rfl
  | window w =>
    rw [checkParameters, bind_eq_ok_iff, refuse_eq_ok_iff, bind_eq_ok_iff, refuse_eq_ok_iff,
      checkGrouping_eq_ok_iff, Option.any_eq_false]
    simp only [isZero_eq_false_iff]
    rfl
  | join j =>
    have haliases : (∀ a ∈ j.aliases, a ≠ "" ∧ a ∉ []) ↔ "" ∉ j.aliases := by
      simp only [List.not_mem_nil, not_false_eq_true, and_true]
      exact ⟨fun h hmem => h "" hmem rfl, fun h a ha heq => h (heq ▸ ha)⟩
    have hhorizon : j.horizon ≠ some 0 ↔ ∀ horizon ∈ j.horizon, 1 ≤ horizon := by
      cases j.horizon <;> simp [Nat.one_le_iff_ne_zero]
    rw [checkParameters, bind_eq_ok_iff, refuse_eq_ok_iff, bind_eq_ok_iff, refuse_eq_ok_iff,
      checkAliases_eq_ok_iff, haliases, decide_eq_false_iff_not, not_not, decide_eq_false_iff_not,
      ← ne_eq, hhorizon, and_assoc]
    rfl
  | union u =>
    rw [checkParameters, refuse_eq_ok_iff, any_isEmpty_eq_false_iff]
    rfl
  | reduce r => exact checkReduce_eq_ok_iff
  | alert a => exact checkAlert_eq_ok_iff
  | cache c =>
    rw [checkParameters, refuse_eq_ok_iff, any_isEmpty_eq_false_iff]
    rfl
  | output o =>
    rw [checkParameters, refuse_eq_ok_iff, String.isEmpty_eq_false_iff]
    rfl

theorem checkFeeds_eq_ok_iff (hids : b.ids.Nodup) : b.checkFeeds = .ok () ↔
    ∀ m ∈ b.nodes, ∀ n ∈ b.nodes, m.kind.isOutput = true → m.id ∉ n.inputs := by
  rw [checkFeeds, forM_eq_ok_iff]
  simp only [edges, List.mem_flatMap, List.mem_map, refuse_eq_ok_iff, isOutput]
  constructor
  · intro h m hm n hn houtput hinput
    have hfed := h (m.id, n.id) ⟨n, hn, m.id, hinput, rfl⟩
    rw [node?_eq_some_of_mem hids hm, Option.any_some, houtput] at hfed
    cases hfed
  · rintro h _ ⟨n, hn, input, hinput, rfl⟩
    rw [Option.any_eq_false]
    intro m hm
    obtain ⟨hmem, rfl⟩ := mem_nodes_of_node?_eq_some hm
    rw [← Bool.not_eq_true]
    exact fun houtput => h m hmem n hn houtput hinput

/-- The checks pass exactly on valid blueprints. -/
theorem check_eq_ok_iff : b.check = .ok () ↔ b.Valid := by
  have hnodes : b.nodes.forM checkNode = .ok () ↔ (∀ n ∈ b.nodes, n.HasArity) ∧
      ∀ n ∈ b.nodes, n.kind.Valid n.inputs.length := by
    rw [forM_eq_ok_iff, ← forall₂_and]
    refine forall₂_congr fun n _ => ?_
    rw [checkNode, bind_eq_ok_iff, checkArity_eq_ok_iff, checkParameters_eq_ok_iff]
  rw [check, bind_eq_ok_iff, bind_eq_ok_iff, bind_eq_ok_iff, bind_eq_ok_iff, bind_eq_ok_iff,
    checkName_eq_ok_iff, checkIds_eq_ok_iff, checkEdges_eq_ok_iff, hnodes,
    checkOutputNames_eq_ok_iff]
  simp only [List.not_mem_nil, not_false_eq_true, and_true, implies_true, true_and]
  constructor
  · rintro ⟨⟨hnamed, hne⟩, ⟨hids, hdistinct⟩, ⟨hinputs, honce⟩, ⟨harity, hparameters⟩, hfeeds,
      houtputs⟩
    exact ⟨hnamed, hne, hids, hdistinct, hinputs, honce, harity, hparameters,
      (checkFeeds_eq_ok_iff hdistinct).1 hfeeds, houtputs⟩
  · intro h
    exact ⟨⟨h.named, h.nodes⟩, ⟨h.ids, h.distinctIds⟩, ⟨h.inputs, h.distinctInputs⟩,
      ⟨h.arity, h.parameters⟩, (checkFeeds_eq_ok_iff h.distinctIds).2 h.outputs, h.distinctOutputs⟩

theorem Valid.input_mem_ids (h : b.Valid) (input reader : String) (hfeeds : b.Feeds input reader) :
    input ∈ b.ids := by
  obtain ⟨n, hn, -, hinput⟩ := hfeeds
  exact (h.inputs n hn input hinput).2

/-- A valid blueprint has an order exactly when it has no cycle. -/
theorem Valid.order_eq_ok_iff (h : b.Valid) :
    (∃ order, b.order = .ok order) ↔ ∀ id, ¬ b.OnCycle id := by
  constructor
  · rintro ⟨order, horder⟩ id
    exact not_onCycle_of_order_eq_ok h.distinctIds horder
  · intro hacyclic
    cases horder : b.order with
    | ok order => exact ⟨order, rfl⟩
    | error cause =>
      obtain ⟨id, -, hcycle⟩ :=
        onCycle_of_order_eq_error h.distinctIds h.input_mem_ids horder
      exact absurd hcycle (hacyclic id)

end Blueprint

theorem Plan.settings_check_of_ofBlueprint_eq_ok {b : Blueprint} {settings : Settings} {p : Plan}
    (h : ofBlueprint b settings = .ok p) : settings.check = .ok () := by
  rw [ofBlueprint] at h
  split at h
  · cases h
  · assumption

section Order

variable {b : Blueprint} {settings : Settings} (hsettings : settings.Valid) (hb : b.Valid)
include hsettings hb

/-- Of valid settings and a valid blueprint, what comes depends on the order of nodes only. -/
theorem Plan.ofBlueprint_of_order_eq_ok {order : List String} (h : b.order = .ok order) :
    ofBlueprint b settings = .ok ⟨b.name, settings, layOut b order, b.outputNames⟩ := by
  simp only [ofBlueprint, Settings.check_eq_ok_iff.2 hsettings, Blueprint.check_eq_ok_iff.2 hb, h]

theorem Plan.ofBlueprint_of_order_eq_error {cause : GraphFault} (h : b.order = .error cause) :
    ofBlueprint b settings = .error (.graph cause) := by
  simp only [ofBlueprint, Settings.check_eq_ok_iff.2 hsettings, Blueprint.check_eq_ok_iff.2 hb, h]

end Order

/-- A blueprint has a plan exactly when the settings and the blueprint are valid and no node reaches
itself. When all else is valid, a cycle is reported exactly when there is one, for a node on it. -/
theorem Plan.ofBlueprint_eq_ok_iff (b : Blueprint) (settings : Settings) :
    ((∃ p, ofBlueprint b settings = .ok p) ↔
      settings.Valid ∧ b.Valid ∧ ∀ id, ¬ b.OnCycle id) ∧
    (settings.Valid ∧ b.Valid →
      ((∃ id, ofBlueprint b settings = .error (.graph (.cycle id))) ↔ ∃ id, b.OnCycle id) ∧
      ∀ id, ofBlueprint b settings = .error (.graph (.cycle id)) → b.OnCycle id) := by
  constructor
  · constructor
    · rintro ⟨p, hp⟩
      obtain ⟨order, hcheck, horder, -⟩ := of_ofBlueprint_eq_ok hp
      have hb := Blueprint.check_eq_ok_iff.1 hcheck
      exact ⟨Settings.check_eq_ok_iff.1 (settings_check_of_ofBlueprint_eq_ok hp), hb,
        hb.order_eq_ok_iff.1 ⟨order, horder⟩⟩
    · rintro ⟨hsettings, hb, hacyclic⟩
      obtain ⟨order, horder⟩ := hb.order_eq_ok_iff.2 hacyclic
      exact ⟨_, ofBlueprint_of_order_eq_ok hsettings hb horder⟩
  · rintro ⟨hsettings, hb⟩
    -- the order is the last step that can fail, and fails on cycles only
    cases horder : b.order with
    | ok order =>
      have hacyclic := hb.order_eq_ok_iff.1 ⟨order, horder⟩
      rw [ofBlueprint_of_order_eq_ok hsettings hb horder]
      refine ⟨iff_of_false nofun fun ⟨id, hid⟩ => hacyclic id hid, nofun⟩
    | error cause =>
      obtain ⟨id, rfl, hcycle⟩ :=
        Blueprint.onCycle_of_order_eq_error hb.distinctIds hb.input_mem_ids horder
      rw [ofBlueprint_of_order_eq_error hsettings hb horder]
      refine ⟨iff_of_true ⟨id, rfl⟩ ⟨id, hcycle⟩, fun id' hid' => ?_⟩
      cases hid'
      exact hcycle

/-- A union that reads from a window that reads from it. -/
def unionInCycle : Blueprint :=
  ⟨"p", [⟨"s", .source ⟨none, none, none, .empty, none⟩, []⟩,
    ⟨"u", .union ⟨none⟩, ["s", "w"]⟩, ⟨"w", .window ⟨⟨10⟩, none, .empty⟩, ["u"]⟩]⟩

/-- All that is asked of the union in a cycle holds, except that it must not reach itself. -/
theorem Plan.ofBlueprint_eq_ok_iff_unionInCycle :
    Settings.standard.Valid ∧ unionInCycle.Valid ∧ unionInCycle.OnCycle "w" ∧
    (∃ id, ofBlueprint unionInCycle .standard = .error (.graph (.cycle id))) ∧
    ¬ ∃ p, ofBlueprint unionInCycle .standard = .ok p := by
  have hsettings : Settings.standard.Valid := Settings.check_eq_ok_iff.1 rfl
  have hvalid : unionInCycle.Valid := Blueprint.check_eq_ok_iff.1 (by with_unfolding_all rfl)
  have hcycle : unionInCycle.OnCycle "w" := by
    refine .tail (.single (b := "u") ?_) ?_
    · exact ⟨⟨"u", .union ⟨none⟩, ["s", "w"]⟩, by simp [unionInCycle], rfl, by simp⟩
    · exact ⟨⟨"w", .window ⟨⟨10⟩, none, .empty⟩, ["u"]⟩, by simp [unionInCycle], rfl, by simp⟩
  obtain ⟨hplan, hreported⟩ := ofBlueprint_eq_ok_iff unionInCycle .standard
  refine ⟨hsettings, hvalid, hcycle, ?_, fun h => (hplan.1 h).2.2 "w" hcycle⟩
  exact (hreported ⟨hsettings, hvalid⟩).1.2 ⟨"w", hcycle⟩

end SeriesPipeline
