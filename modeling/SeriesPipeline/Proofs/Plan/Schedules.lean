import SeriesPipeline.Proofs.Plan.Flow
import SeriesPipeline.Proofs.Plan.Names
import SeriesPipeline.Proofs.Task.Cache

/-!
# Schedules

In a plan without joins and unions every stage has one stream of input, so what comes of it does not
depend on the order in which processes make their moves. Stages publish under names of their own,
and the order among different names does not show in the result cache.
-/

namespace SeriesPipeline

/-- Whether all processes have left by themselves and have sent everything. -/
def Network.hasEnded (n : Network) : Bool := n.processes.all (·.hasEnded)

namespace Execution

variable {p : Plan} {given : Nat → List Message} {x y : Execution}

theorem Reached.of_hasEnded (h : x.Reached p.network given) (hended : x.network.hasEnded = true)
    {k : Nat} {s : PlannedStage} (hs : p.stages[k]? = some s) :
    ((p.process k s).courseOf (historyOf k x.log)).progress ≠ .running ∧
      sendings (historyOf k x.log) = (p.process k s).broadcast
        (((p.process k s).courseOf (historyOf k x.log)).reaction.sent ++ [.close]) := by
  obtain ⟨process, hprocess, hfollows⟩ := h.follows hs
  exact hfollows.of_hasEnded (List.all_eq_true.1 hended process (List.mem_of_getElem? hprocess))

/-- What a stage gives out has the labels of the stage. -/
theorem Reached.labelled (h : x.Reached p.network given) {i : Nat} {e : Envelope}
    {reaction : Reaction} (htook : .took i e reaction ∈ x.log) :
    ∃ s, p.stages[i]? = some s ∧ reaction.Labelled (Plan.labelsOf s) := by
  obtain ⟨s, hs⟩ := h.exists_stage htook rfl
  obtain ⟨_, -, hfollows⟩ := h.follows hs
  have hmem := mem_reactions.2 ⟨e, htook⟩
  obtain ⟨-, hlabelled⟩ := (p.process i s).stage.course_labels .epoch
    (takings (historyOf i x.log))
  have hlabels : (p.process i s).stage.operator.labels = Plan.labelsOf s :=
    Operator.labels_ofNode ..
  rw [hlabels] at hlabelled
  refine ⟨s, hs, fun e he => hlabelled.published e ?_, fun a ha => hlabelled.alerts a.unobserved ?_⟩
  · exact hfollows.published.symm ▸ List.mem_flatMap.2 ⟨reaction, hmem, he⟩
  · exact hfollows.alerts.symm ▸ List.mem_map_of_mem (List.mem_flatMap.2 ⟨reaction, hmem, ha⟩)

/-- An inbox of one port is the messages at the port. -/
theorem eq_map_messagesAt {port : Nat} {inbox : List Envelope}
    (h : ∀ e ∈ inbox, e.port = port) : inbox = (messagesAt port inbox).map (⟨port, ·⟩) := by
  induction inbox with
  | nil => rfl
  | cons e rest ih =>
    obtain ⟨port', m⟩ := e
    obtain rfl : port' = port := h _ List.mem_cons_self
    rw [messagesAt_cons, if_pos rfl, List.map_cons,
      ← ih fun e he => h e (List.mem_cons_of_mem _ he)]

section Agree

variable {b : Blueprint} {settings : Settings} (h : Plan.ofBlueprint b settings = .ok p)
  (hstages : ∀ s ∈ p.stages, s.kind.combines = false) (hfeeds : p.Feeds given)
  (hx : x.Reached p.network given) (hy : y.Reached p.network given)
include h hstages hfeeds hx hy

/-- What arrives at a stage in two executions begins one and the same stream. -/
theorem exists_stream {k : Nat} {s : PlannedStage} (hs : p.stages[k]? = some s)
    (hbefore : ∀ i < k, sendings (historyOf i x.log) = sendings (historyOf i y.log)) :
    ∃ stream, arrivals (historyOf k x.log) <+: stream ∧
      arrivals (historyOf k y.log) <+: stream := by
  have hmem := List.mem_of_getElem? hs
  have hlength := (Plan.inputs_of_mem_stages h hmem).2 (hstages s hmem)
  match hinputs : s.inputs with
  | [] =>
    exact ⟨_, hx.arrivals_of_source hs hinputs, hy.arrivals_of_source hs hinputs⟩
  | [i] =>
    have hgiven : given k = [] := hfeeds.eq_nil h hs (by rw [hinputs]; exact List.cons_ne_nil _ _)
    have hi : s.inputs[0]? = some i := by rw [hinputs]; rfl
    -- a stage with one input takes everything from port 0
    have hport : ∀ {x : Execution}, x.Reached p.network given →
        ∀ e ∈ arrivals (historyOf k x.log), e.port = 0 ∧ i < k := by
      intro x hx e he
      obtain ⟨i', hinput, hlt⟩ := hx.port_lt hs hgiven he
      have hzero : e.port = 0 := by
        have hltLength := (List.getElem?_eq_some_iff.1 hinput).1
        omega
      rw [hzero, hi] at hinput
      exact ⟨hzero, Option.some.inj hinput ▸ hlt⟩
    refine ⟨arrivals (historyOf k x.log), List.prefix_refl _, ?_⟩
    by_cases hlt : i < k
    · rw [eq_map_messagesAt fun e he => (hport hy e he).1, hy.messagesAt_arrivals hs hgiven hi hlt,
        ← hbefore i hlt, ← hx.messagesAt_arrivals hs hgiven hi hlt,
        ← eq_map_messagesAt fun e he => (hport hx e he).1]
    · rw [List.eq_nil_iff_forall_not_mem.2 fun e he => hlt (hport hy e he).2]
      exact List.nil_prefix
  | _ :: _ :: _ =>
    rw [hinputs] at hlength
    simp at hlength

/-- Two executions that have ended have made the same of every stage. -/
theorem courseOf_eq (hxended : x.network.hasEnded = true) (hyended : y.network.hasEnded = true)
    {k : Nat} {s : PlannedStage} (hs : p.stages[k]? = some s) :
    (p.process k s).courseOf (historyOf k x.log) =
      (p.process k s).courseOf (historyOf k y.log) := by
  -- stages read from stages before them only
  induction k using Nat.strong_induction_on generalizing s with
  | _ k ih =>
    have hbefore : ∀ i < k, sendings (historyOf i x.log) = sendings (historyOf i y.log) := by
      intro i hlt
      have hlength := Nat.lt_trans hlt (List.getElem?_eq_some_iff.1 hs).1
      obtain ⟨t, hi⟩ : ∃ t, p.stages[i]? = some t := ⟨_, List.getElem?_eq_getElem hlength⟩
      rw [(hx.of_hasEnded hxended hi).2, (hy.of_hasEnded hyended hi).2, ih i hlt hi]
    obtain ⟨stream, hxstream, hystream⟩ := exists_stream h hstages hfeeds hx hy hs hbefore
    obtain ⟨_, -, hxfollows⟩ := hx.follows hs
    obtain ⟨_, -, hyfollows⟩ := hy.follows hs
    -- both courses have ended on a beginning of the stream, so each is the course on all of it
    exact (Stage.course_eq_of_isPrefix (hxfollows.taken.trans hxstream)
      (hx.of_hasEnded hxended hs).1).symm.trans
      (Stage.course_eq_of_isPrefix (hyfollows.taken.trans hystream) (hy.of_hasEnded hyended hs).1)

/-- Two executions that have ended have sent the same messages, and given out the same. -/
theorem histories_eq (hxended : x.network.hasEnded = true) (hyended : y.network.hasEnded = true)
    (k : Nat) : sendings (historyOf k x.log) = sendings (historyOf k y.log) ∧
      (reactions (historyOf k x.log)).flatMap (·.published) =
        (reactions (historyOf k y.log)).flatMap (·.published) ∧
      ((reactions (historyOf k x.log)).flatMap (·.alerts)).map Alert.unobserved =
        ((reactions (historyOf k y.log)).flatMap (·.alerts)).map Alert.unobserved := by
  cases hs : p.stages[k]? with
  | none =>
    obtain ⟨hxsent, hxreacted⟩ := hx.idle hs
    obtain ⟨hysent, hyreacted⟩ := hy.idle hs
    rw [hxsent, hysent, hxreacted, hyreacted]
    exact ⟨rfl, rfl, rfl⟩
  | some s =>
    have hcourse := courseOf_eq h hstages hfeeds hx hy hxended hyended hs
    obtain ⟨_, -, hxfollows⟩ := hx.follows hs
    obtain ⟨_, -, hyfollows⟩ := hy.follows hs
    rw [(hx.of_hasEnded hxended hs).2, (hy.of_hasEnded hyended hs).2, ← hxfollows.published,
      ← hyfollows.published, ← hxfollows.alerts, ← hyfollows.alerts, hcourse]
    exact ⟨rfl, rfl, rfl⟩

theorem stages_eq (hxended : x.network.hasEnded = true) (hyended : y.network.hasEnded = true) :
    x.network.processes.map (·.stage) = y.network.processes.map (·.stage) := by
  apply List.ext_getElem?
  intro k
  rw [List.getElem?_map, List.getElem?_map]
  cases hs : p.stages[k]? with
  | none => rw [hx.getElem?_eq_none hs, hy.getElem?_eq_none hs]
  | some s =>
    have hcourse := courseOf_eq h hstages hfeeds hx hy hxended hyended hs
    obtain ⟨_, hxprocess, hxfollows⟩ := hx.follows hs
    obtain ⟨_, hyprocess, hyfollows⟩ := hy.follows hs
    rw [hxprocess, hyprocess, Option.map_some, Option.map_some, hxfollows.stage, hyfollows.stage,
      hcourse]

end Agree

/-! ## Results -/

/-- At most one stage has a name that tells stages apart. -/
theorem exists_owner (f : PlannedStage → Option String) (name : String)
    (hdistinct : ∀ {i j : Nat} {s t : PlannedStage}, p.stages[i]? = some s → p.stages[j]? = some t →
      f s = some name → f t = some name → i = j) :
    ∃ k, ∀ (i : Nat) (s : PlannedStage), p.stages[i]? = some s → f s = some name → i = k := by
  by_cases hnamed : ∃ (k : Nat) (s : PlannedStage), p.stages[k]? = some s ∧ f s = some name
  · obtain ⟨k, s, hs, hname⟩ := hnamed
    exact ⟨k, fun i t ht htname => hdistinct ht hs htname hname⟩
  · exact ⟨0, fun i t ht htname => absurd ⟨i, t, ht, htname⟩ hnamed⟩

/-- What was published under a name is what its stage published. -/
theorem Reached.filter_publishedIn (h : x.Reached p.network given) {k : Nat} {name : String}
    (hk : ∀ i s, p.stages[i]? = some s → (Plan.labelsOf s).1 = some name → i = k) :
    (publishedIn x.log).filter (·.1 = name) =
      ((reactions (historyOf k x.log)).flatMap (·.published)).filter (·.1 = name) := by
  refine filter_flatMap_reactions fun i e reaction htook hne => ?_
  obtain ⟨s, hs, hlabelled⟩ := h.labelled htook
  refine List.filter_eq_nil_iff.2 fun entry hentry heq => hne (hk i s hs ?_)
  rw [hlabelled.published entry hentry, of_decide_eq_true heq]

/-- The alerts of a node are those of its stage. -/
theorem Reached.filter_alertsIn (h : x.Reached p.network given) {k : Nat} {node : String}
    (hk : ∀ i s, p.stages[i]? = some s → (Plan.labelsOf s).2 = some node → i = k) :
    (alertsIn x.log).filter (·.node = node) =
      ((reactions (historyOf k x.log)).flatMap (·.alerts)).filter (·.node = node) := by
  refine filter_flatMap_reactions fun i e reaction htook hne => ?_
  obtain ⟨s, hs, hlabelled⟩ := h.labelled htook
  refine List.filter_eq_nil_iff.2 fun alert halert heq => hne (hk i s hs ?_)
  rw [hlabelled.alerts alert halert, of_decide_eq_true heq]

theorem map_unobserved_filter (alerts : List Alert) (node : String) :
    (alerts.filter (·.node = node)).map Alert.unobserved =
      (alerts.map Alert.unobserved).filter (·.node = node) := by
  rw [List.filter_map]
  rfl

end Execution

namespace Plan

/-- In a plan without joins and unions, any two complete executions on the same input come to the
same: every stage sends the same messages in the same order and has the same counters at the end,
the result caches are the same, and so are the alerts of every node, apart from the time at which
they were observed. -/
theorem complete_executions_agree {b : Blueprint} {settings : Settings} {p : Plan}
    (h : ofBlueprint b settings = .ok p) (hstages : ∀ s ∈ p.stages, s.kind.combines = false)
    {given : Nat → List Message} (hfeeds : p.Feeds given) {moves moves' : List Move}
    {x y : Execution} (hx : (Execution.start p.network given).run moves = some x)
    (hy : (Execution.start p.network given).run moves' = some y)
    (hxended : x.network.hasEnded = true) (hyended : y.network.hasEnded = true) :
    (∀ k, sendings (historyOf k x.log) = sendings (historyOf k y.log)) ∧
    x.network.results.cache = y.network.results.cache ∧
    (x.network.processes.map fun q => (q.stage.id, q.stage.stats)) =
      (y.network.processes.map fun q => (q.stage.id, q.stage.stats)) ∧
    ∀ node : String, (x.network.results.alerts.filter (·.node = node)).map Alert.unobserved =
      (y.network.results.alerts.filter (·.node = node)).map Alert.unobserved := by
  have hxreached := (Execution.reached_start p.isNew_of_mem_network).run hx
  have hyreached := (Execution.reached_start p.isNew_of_mem_network).run hy
  have hhistories := Execution.histories_eq h hstages hfeeds hxreached hyreached hxended hyended
  refine ⟨fun k => (hhistories k).1, ?_, ?_, fun node => ?_⟩
  · rw [hxreached.results.cache, hyreached.results.cache]
    -- entries of one name keep their order, and those of different names do not meet
    refine ResultCache.foldl_publish_eq _ fun name => ?_
    obtain ⟨k, hk⟩ := Execution.exists_owner (p := p) (fun s => (labelsOf s).1) name
      fun hs ht hsname htname => eq_of_outputName h hs ht hsname htname
    rw [hxreached.filter_publishedIn hk, hyreached.filter_publishedIn hk, (hhistories k).2.1]
  · have hstages := congrArg (List.map fun s : Stage => (s.id, s.stats))
      (Execution.stages_eq h hstages hfeeds hxreached hyreached hxended hyended)
    rwa [List.map_map, List.map_map] at hstages
  · obtain ⟨k, hk⟩ := Execution.exists_owner (p := p) (fun s => (labelsOf s).2) node
      fun hs ht hsname htname => eq_of_alertNode h hs ht hsname htname
    have hnone : p.network.results.alerts = [] := rfl
    rw [hxreached.results.alerts, hyreached.results.alerts, hnone, List.nil_append, List.nil_append,
      hxreached.filter_alertsIn hk, hyreached.filter_alertsIn hk, Execution.map_unobserved_filter,
      Execution.map_unobserved_filter, (hhistories k).2.2]

/-- A source that a cache and an output read from. -/
def fanOut : Blueprint :=
  ⟨"p", [⟨"s", .source ⟨none, none, none, .empty, none⟩, []⟩, ⟨"c", .cache ⟨none⟩, ["s"]⟩,
    ⟨"o", .output ⟨"out"⟩, ["s"]⟩]⟩

def planOfFanOut : Plan :=
  ⟨"p", .standard, [⟨"s", "s", .source ⟨none, none, none, .empty, none⟩, []⟩,
    ⟨"c", "c", .cache ⟨none⟩, [0]⟩, ⟨"o", "o", .output ⟨"out"⟩, [0]⟩], ["c", "out"]⟩

/-- A batch of one row and a close, for the source. -/
def givenToFanOut (k : Nat) : List Message :=
  if k = 0 then [.batch ⟨"m", ∅, ["v"], [⟨⟨1⟩, [.null]⟩], none⟩, .close] else []

/-- One stage after the other, each as far as it gets. -/
def stageByStage : List Move :=
  [.feed 0, .feed 0] ++ List.replicate 7 (.step 0 .epoch) ++ List.replicate 3 (.step 1 ⟨1⟩) ++
    List.replicate 3 (.step 2 ⟨2⟩)

/-- One message after the other, each as far as it gets. -/
def messageByMessage : List Move :=
  [.feed 0, .step 0 ⟨3⟩, .step 0 ⟨3⟩, .step 1 ⟨4⟩, .step 0 ⟨4⟩, .step 2 ⟨5⟩, .feed 0, .step 0 ⟨5⟩,
    .step 0 ⟨5⟩, .step 0 ⟨6⟩, .step 1 ⟨6⟩, .step 1 ⟨6⟩, .step 0 ⟨7⟩, .step 2 ⟨8⟩, .step 2 ⟨8⟩]

/-- Both ways of running the fan-out end, and come to the same. -/
theorem complete_executions_agree_fanOut :
    ∃ x y, (Execution.start planOfFanOut.network givenToFanOut).run stageByStage = some x ∧
      (Execution.start planOfFanOut.network givenToFanOut).run messageByMessage = some y ∧
      x.network.hasEnded = true ∧ y.network.hasEnded = true ∧
      (∀ k, sendings (historyOf k x.log) = sendings (historyOf k y.log)) ∧
      x.network.results.cache = y.network.results.cache := by
  have hplan : ofBlueprint fanOut .standard = .ok planOfFanOut := by
    with_unfolding_all rfl
  have hfeeds : planOfFanOut.Feeds givenToFanOut := by
    intro k hk
    rw [givenToFanOut] at hk
    split at hk
    · rename_i hzero
      rw [hzero]
      exact List.mem_cons_self
    · exact absurd rfl hk
  have hends : ∀ moves ∈ [stageByStage, messageByMessage], ∃ x,
      (Execution.start planOfFanOut.network givenToFanOut).run moves = some x ∧
        x.network.hasEnded = true := by
    intro moves hmoves
    rw [← Option.any_eq_true]
    revert moves
    with_unfolding_all decide
  obtain ⟨x, hx, hxended⟩ := hends _ List.mem_cons_self
  obtain ⟨y, hy, hyended⟩ := hends _ (List.mem_cons_of_mem _ List.mem_cons_self)
  obtain ⟨hsent, hcache, -, -⟩ :=
    complete_executions_agree hplan (by decide) hfeeds hx hy hxended hyended
  exact ⟨x, y, hx, hy, hxended, hyended, hsent, hcache⟩

end Plan

end SeriesPipeline
