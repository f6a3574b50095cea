import SeriesPipeline.Proofs.Plan.Wiring
import SeriesPipeline.Proofs.Registry.Handles
import SeriesPipeline.Proofs.Task.Rest

/-!
# Tasks side by side

While the clock stands still, what is asked of the tasks of one name goes on as if there were no
others. Every operation changes the tasks of one name only, and those of all other names rest.
-/

namespace SeriesPipeline

/-- A task by its name while it runs, or by a handle that somebody has kept. -/
inductive Address where
  | running (name : String)
  | held (h : TaskHandle)

def Address.name : Address → String
  | running name => name
  | held h => h.name

/-- What is asked of a registry. -/
inductive Operation where
  | start (b : Blueprint)
  | call (a : Address) (c : Call)
  | fail (a : Address) (message : String)
  | stop (name : String)
  | output (a : Address) (output : String)
  /-- Looks at the counters, the failure and all else of a task. -/
  | look (a : Address)

/-- The name of the tasks that the operation is about. -/
def Operation.name : Operation → String
  | start b => b.name
  | call a _ => a.name
  | fail a _ => a.name
  | stop name => name
  | output a _ => a.name
  | look a => a.name

inductive Answer where
  | refused (cause : RegistryFault)
  | started (h : TaskHandle) (t : PipelineTask)
  | delivered (delivery : Delivery)
  | reported
  | stopped (h : TaskHandle)
  | document (d : Document)
  | task (t : Option PipelineTask)

/-- An operation with what came of it: the answer, and the alerts until all tasks had settled. -/
structure Exchange where
  operation : Operation
  answer : Answer
  alerts : List Alert

namespace Registry

def resolve (r : Registry) : Address → Except RegistryFault TaskHandle
  | .running name => r.find name
  | .held h => .ok h

def perform (r : Registry) : Operation → Registry × Answer
  | .start b =>
    match r.start b with
    | .ok (r', t) => (r', .started ⟨b.name, (r.named b.name).started.length⟩ t)
    | .error cause => (r, .refused cause)
  | .call a c =>
    match r.resolve a with
    | .ok h => ((r.call h c).1, .delivered (r.call h c).2)
    | .error cause => (r, .refused cause)
  | .fail a message =>
    match r.resolve a with
    | .ok h => (r.fail h message, .reported)
    | .error cause => (r, .refused cause)
  | .stop name =>
    match r.stop name with
    | .ok (r, h) => (r, .stopped h)
    | .error cause => (r, .refused cause)
  | .output a output =>
    match (r.resolve a).bind (r.output · output) with
    | .ok document => (r, .document document)
    | .error cause => (r, .refused cause)
  | .look a =>
    match r.resolve a with
    | .ok h => (r, .task (r.task? h))
    | .error cause => (r, .refused cause)

/-- Performs an operation, lets all tasks settle, and picks up the alerts. -/
def step (r : Registry) (op : Operation) : Registry × Exchange :=
  let (r, answer) := r.perform op
  let (r, alerts) := r.settle.takeAlerts
  (r, ⟨op, answer, alerts⟩)

def run (r : Registry) : List Operation → Registry × List Exchange
  | [] => (r, [])
  | op :: rest =>
    let (r, exchange) := r.step op
    let (r, later) := r.run rest
    (r, exchange :: later)

theorem run_cons (r : Registry) (op : Operation) (rest : List Operation) : r.run (op :: rest) =
    (((r.step op).1.run rest).1, (r.step op).2 :: ((r.step op).1.run rest).2) :=
  rfl

theorem operation_step (r : Registry) (op : Operation) : (r.step op).2.operation = op := rfl

variable {r r' r'' : Registry} {name : String} {h : TaskHandle} {t : PipelineTask}

theorem named_insert_self (r : Registry) (name : String) (v : NamedTasks) :
    ({ r with names := r.names.insert name v } : Registry).named name = v :=
  (named_insert r name name v).trans (if_pos rfl)

/-! ## Settling and picking up -/

theorem named_map (r : Registry) (f : NamedTasks → NamedTasks)
    (hf : f ⟨[], false⟩ = ⟨[], false⟩) (name : String) :
    ({ r with names := r.names.map fun _ named => f named } : Registry).named name =
      f (r.named name) := by
  rw [named, SortedMap.get?_map, named]
  cases r.names.get? name with
  | none => exact hf.symm
  | some started => rfl

theorem named_settle (r : Registry) (name : String) : r.settle.named name =
    { r.named name with started := (r.named name).started.map (·.settle r.clock.now) } :=
  named_map r (fun named => { named with started := named.started.map (·.settle r.clock.now) }) rfl
    name

theorem named_takeAlerts (r : Registry) (name : String) : r.takeAlerts.1.named name =
    { r.named name with started := (r.named name).started.map fun t => t.takeAlerts.1 } :=
  named_map r (fun named =>
    { named with started := named.started.map fun t => t.takeAlerts.1 }) rfl name

/-! ## What an operation leaves alone -/

/-- Only tasks of one name differ, and their alerts stay their own. -/
structure Confined (name : String) (r r' : Registry) : Prop where
  clock : r'.clock = r.clock
  settings : r'.settings = r.settings
  others : ∀ other ≠ name, r'.named other = r.named other
  owned : (∀ t ∈ (r.named name).started, t.network.Owned name) →
    ∀ t ∈ (r'.named name).started, t.network.Owned name

/-- The tasks of all other names rest. -/
def RestsBeside (r : Registry) (name : String) : Prop :=
  ∀ other ≠ name, ∀ t ∈ (r.named other).started, t.AtRest

theorem Confined.refl (name : String) (r : Registry) : Confined name r r :=
  ⟨rfl, rfl, fun _ _ => rfl, id⟩

theorem Confined.trans (h : Confined name r r') (h' : Confined name r' r'') :
    Confined name r r'' where
  clock := h'.clock.trans h.clock
  settings := h'.settings.trans h.settings
  others other hother := (h'.others other hother).trans (h.others other hother)
  owned howned := h'.owned (h.owned howned)

theorem RestsBeside.confined (h : r.RestsBeside name) (hconfined : Confined name r r') :
    r'.RestsBeside name := by
  intro other hother
  rw [hconfined.others other hother]
  exact h other hother

theorem confined_setTask {t' : PipelineTask} (ht : r.task? h = some t)
    (howned : t.network.Owned h.name → t'.network.Owned h.name) :
    Confined h.name r (r.setTask h t') := by
  refine ⟨rfl, rfl, fun other hother => ?_, fun hall u hu => ?_⟩
  · rw [named_setTask, if_neg hother]
  · rw [named_setTask, if_pos rfl] at hu
    rcases List.mem_or_eq_of_mem_set hu with hu | rfl
    · exact hall u hu
    · exact howned (hall t (List.mem_of_getElem? ht))

theorem confined_call (r : Registry) (h : TaskHandle) (c : Call) :
    Confined h.name r (r.call h c).1 := by
  rw [call]
  split
  · rename_i t ht
    exact confined_setTask ht fun howned => PipelineTask.owned_call howned _ c
  · exact .refl _ _

theorem confined_fail (r : Registry) (h : TaskHandle) (message : String) :
    Confined h.name r (r.fail h message) := by
  rw [fail]
  split
  · rename_i t ht
    exact confined_setTask ht fun howned => PipelineTask.owned_fail howned _
  · exact .refl _ _

theorem eq_of_start {b : Blueprint} (hstart : r.start b = .ok (r', t)) :
    ∃ plan, Plan.ofBlueprint b r.settings = .ok plan ∧ t = .launch plan ∧
      r' = { r with names := r.names.insert b.name ⟨(r.named b.name).started ++ [t], true⟩ } := by
  unfold start at hstart
  split at hstart
  · cases hstart
  · rename_i plan hplan
    dsimp only at hstart
    split at hstart
    · cases hstart
    · cases hstart
      exact ⟨plan, hplan, rfl, rfl⟩

theorem confined_start {b : Blueprint} (hstart : r.start b = .ok (r', t)) :
    Confined b.name r r' := by
  obtain ⟨plan, hplan, rfl, rfl⟩ := eq_of_start hstart
  refine ⟨rfl, rfl, fun other hother => ?_, fun hall u hu => ?_⟩
  · rw [named_insert, if_neg hother]
  · rw [named_insert, if_pos rfl] at hu
    rcases List.mem_append.1 hu with hu | hu
    · exact hall u hu
    · obtain ⟨order, -, -, rfl⟩ := Plan.of_ofBlueprint_eq_ok hplan
      rw [List.mem_singleton.1 hu]
      exact Network.owned_network ⟨b.name, r.settings, _, _⟩

theorem confined_release (r : Registry) (name : String) : Confined name r (r.release name) := by
  refine ⟨rfl, rfl, fun other hother => ?_, fun hall => ?_⟩
  · rw [named_release, if_neg hother]
  · rw [named_release, if_pos rfl]
    exact hall

theorem confined_settle (hrest : r.RestsBeside name) : Confined name r r.settle := by
  refine ⟨rfl, rfl, fun other hother => ?_, fun hall u hu => ?_⟩
  · -- all tasks settle, which those at rest do not notice
    have hsame : (r.named other).started.map (·.settle r.clock.now) =
        (r.named other).started.map id :=
      List.map_congr_left fun t ht => (hrest other hother t ht).settle r.clock.now
    rw [named_settle, hsame, List.map_id]
  · rw [named_settle] at hu
    obtain ⟨t, ht, rfl⟩ := List.mem_map.1 hu
    exact PipelineTask.owned_settle (hall t ht) r.clock.now

theorem confined_takeAlerts (hrest : r.RestsBeside name) : Confined name r r.takeAlerts.1 := by
  refine ⟨rfl, rfl, fun other hother => ?_, fun hall u hu => ?_⟩
  · have hsame : ((r.named other).started.map fun t => t.takeAlerts.1) =
        (r.named other).started.map id :=
      List.map_congr_left fun t ht => congrArg Prod.fst (hrest other hother t ht).takeAlerts
    rw [named_takeAlerts, hsame, List.map_id]
  · rw [named_takeAlerts] at hu
    obtain ⟨t, ht, rfl⟩ := List.mem_map.1 hu
    exact PipelineTask.owned_takeAlerts (hall t ht)

theorem confined_stop (hrest : r.RestsBeside name) (hstop : r.stop name = .ok (r', h)) :
    Confined name r r' := by
  unfold stop at hstop
  cases hfind : r.find name with
  | error cause =>
    rw [hfind] at hstop
    cases hstop
  | ok handle =>
    rw [hfind] at hstop
    cases hstop
    obtain ⟨rfl, -, -⟩ := find_eq_ok_iff.1 hfind
    -- the name is given up only after its task has settled
    have hcall := confined_call r h .close
    have hsettle := confined_settle (hrest.confined hcall)
    exact hcall.trans (hsettle.trans (confined_release _ _))

theorem name_of_resolve {a : Address} (hresolve : r.resolve a = .ok h) : h.name = a.name := by
  cases a with
  | running name => exact (find_eq_ok_iff.1 hresolve).1
  | held handle =>
    cases hresolve
    rfl

theorem confined_perform {op : Operation} (hrest : r.RestsBeside op.name) :
    Confined op.name r (r.perform op).1 := by
  cases op with
  | start b =>
    rw [perform]
    split
    · rename_i hstart
      exact confined_start hstart
    · exact .refl _ _
  | call a c =>
    rw [perform]
    split
    · rename_i h hresolve
      have hcall := confined_call r h c
      rw [name_of_resolve hresolve] at hcall
      exact hcall
    · exact .refl _ _
  | fail a message =>
    rw [perform]
    split
    · rename_i h hresolve
      have hfail := confined_fail r h message
      rw [name_of_resolve hresolve] at hfail
      exact hfail
    · exact .refl _ _
  | stop name =>
    rw [perform]
    split
    · rename_i hstop
      exact confined_stop hrest hstop
    · exact .refl _ _
  | output a output =>
    rw [perform]
    split <;> exact .refl _ _
  | look a =>
    rw [perform]
    split <;> exact .refl _ _

/-- Only tasks that do not rest have alerts. -/
theorem takeAlerts_of_restsBeside (hrest : r.RestsBeside name) :
    r.takeAlerts.2 = (r.named name).started.flatMap fun t => t.takeAlerts.2 := by
  have hnone : ∀ e ∈ r.names.entries, e.1 ≠ name →
      (e.2.started.flatMap fun t => t.takeAlerts.2) = [] := by
    intro e he hne
    have hnamed : r.named e.1 = e.2 := by
      rw [named, SortedMap.get?_eq_some_iff.2 he]
      rfl
    refine List.flatMap_eq_nil_iff.2 fun t ht => ?_
    exact congrArg Prod.snd (hrest e.1 hne t (hnamed ▸ ht)).takeAlerts
  have hentries := SortedMap.flatMap_entries r.names name _ hnone
  show r.names.values.flatMap (fun named => named.started.flatMap fun t => t.takeAlerts.2) = _
  rw [SortedMap.values, List.flatMap_map, hentries, named]
  cases r.names.get? name <;> rfl

theorem mem_running_iff : name ∈ r.running ↔ (r.named name).registered = true := by
  rw [running, SortedMap.keys, List.mem_map, named]
  constructor
  · rintro ⟨⟨key, started⟩, he, rfl⟩
    obtain ⟨hmem, hregistered⟩ := List.mem_filter.1 he
    rw [SortedMap.get?_eq_some_iff.2 hmem]
    exact hregistered
  · intro hregistered
    cases hget : r.names.get? name with
    | none =>
      rw [hget] at hregistered
      cases hregistered
    | some started =>
      rw [hget] at hregistered
      exact ⟨(name, started), List.mem_filter.2 ⟨SortedMap.get?_eq_some_iff.1 hget, hregistered⟩,
        rfl⟩

/-! ## What an answer depends on -/

/-- The registries have the same tasks of one name. -/
structure Agree (name : String) (r r' : Registry) : Prop where
  clock : r.clock = r'.clock
  settings : r.settings = r'.settings
  named : r.named name = r'.named name

theorem Agree.find (h : Agree name r r') : r.find name = r'.find name := by
  rw [Registry.find, Registry.find, latest?, latest?, h.named]

theorem Agree.task? (hagree : Agree h.name r r') : r.task? h = r'.task? h := by
  rw [Registry.task?, Registry.task?, hagree.named]

theorem Agree.resolve {a : Address} (h : Agree a.name r r') : r.resolve a = r'.resolve a := by
  cases a with
  | running name => exact h.find
  | held handle => rfl

theorem Agree.output (hagree : Agree h.name r r') (output : String) :
    r.output h output = r'.output h output := by
  rw [Registry.output, Registry.output, hagree.task?]

theorem Agree.setTask (hagree : Agree h.name r r') (t : PipelineTask) :
    Agree h.name (r.setTask h t) (r'.setTask h t) :=
  ⟨hagree.clock, hagree.settings, by
    rw [named_setTask, named_setTask, if_pos rfl, if_pos rfl, hagree.named]⟩

theorem Agree.call (hagree : Agree h.name r r') (c : Call) :
    (r.call h c).2 = (r'.call h c).2 ∧ Agree h.name (r.call h c).1 (r'.call h c).1 := by
  rw [Registry.call, Registry.call, ← hagree.task?, ← hagree.clock]
  cases r.task? h with
  | none => exact ⟨rfl, hagree⟩
  | some t => exact ⟨rfl, hagree.setTask _⟩

theorem Agree.fail (hagree : Agree h.name r r') (message : String) :
    Agree h.name (r.fail h message) (r'.fail h message) := by
  rw [Registry.fail, Registry.fail, ← hagree.task?]
  cases r.task? h with
  | none => exact hagree
  | some t => exact hagree.setTask _

theorem Agree.release (h : Agree name r r') : Agree name (r.release name) (r'.release name) :=
  ⟨h.clock, h.settings, by
    rw [named_release, named_release, if_pos rfl, if_pos rfl, h.named]⟩

theorem Agree.settle (h : Agree name r r') : Agree name r.settle r'.settle :=
  ⟨h.clock, h.settings, by rw [named_settle, named_settle, h.named, h.clock]⟩

theorem Agree.takeAlerts (h : Agree name r r') : Agree name r.takeAlerts.1 r'.takeAlerts.1 :=
  ⟨h.clock, h.settings, by rw [named_takeAlerts, named_takeAlerts, h.named]⟩

theorem Agree.start {b : Blueprint} (hagree : Agree b.name r r') :
    (r.perform (.start b)).2 = (r'.perform (.start b)).2 ∧
      Agree b.name (r.perform (.start b)).1 (r'.perform (.start b)).1 := by
  rw [perform, perform, Registry.start, Registry.start, ← hagree.settings, ← hagree.named]
  cases Plan.ofBlueprint b r.settings with
  | error cause => exact ⟨rfl, hagree⟩
  | ok plan =>
    dsimp only
    cases (r.named b.name).registered with
    | true => exact ⟨rfl, hagree⟩
    | false =>
      exact ⟨rfl, hagree.clock, rfl,
        (named_insert_self r b.name _).trans (named_insert_self r' b.name _).symm⟩

theorem Agree.stop (hagree : Agree name r r') :
    (r.perform (.stop name)).2 = (r'.perform (.stop name)).2 ∧
      Agree name (r.perform (.stop name)).1 (r'.perform (.stop name)).1 := by
  rw [perform, perform, Registry.stop, Registry.stop, ← hagree.find]
  cases hfind : r.find name with
  | error cause => exact ⟨rfl, hagree⟩
  | ok h =>
    obtain ⟨rfl, -, -⟩ := find_eq_ok_iff.1 hfind
    exact ⟨rfl, (hagree.call .close).2.settle.release⟩

/-- An operation is answered by the tasks of its name. -/
theorem Agree.perform {op : Operation} (hagree : Agree op.name r r') :
    (r.perform op).2 = (r'.perform op).2 ∧ Agree op.name (r.perform op).1 (r'.perform op).1 := by
  cases op with
  | start b => exact hagree.start
  | call a c =>
    replace hagree : Agree a.name r r' := hagree
    show _ ∧ Agree a.name _ _
    rw [Registry.perform, Registry.perform, ← hagree.resolve]
    cases hresolve : r.resolve a with
    | error cause => exact ⟨rfl, hagree⟩
    | ok h =>
      rw [← name_of_resolve hresolve] at hagree ⊢
      obtain ⟨hdelivery, hcall⟩ := hagree.call c
      exact ⟨congrArg Answer.delivered hdelivery, hcall⟩
  | fail a message =>
    replace hagree : Agree a.name r r' := hagree
    show _ ∧ Agree a.name _ _
    rw [Registry.perform, Registry.perform, ← hagree.resolve]
    cases hresolve : r.resolve a with
    | error cause => exact ⟨rfl, hagree⟩
    | ok h =>
      rw [← name_of_resolve hresolve] at hagree ⊢
      exact ⟨rfl, hagree.fail message⟩
  | stop name => exact hagree.stop
  | output a output =>
    replace hagree : Agree a.name r r' := hagree
    show _ ∧ Agree a.name _ _
    rw [Registry.perform, Registry.perform, ← hagree.resolve]
    cases hresolve : r.resolve a with
    | error cause => exact ⟨rfl, hagree⟩
    | ok h =>
      rw [← name_of_resolve hresolve] at hagree ⊢
      simp only [Except.bind, ← hagree.output]
      cases r.output h output <;> exact ⟨rfl, hagree⟩
  | look a =>
    replace hagree : Agree a.name r r' := hagree
    show _ ∧ Agree a.name _ _
    rw [Registry.perform, Registry.perform, ← hagree.resolve]
    cases hresolve : r.resolve a with
    | error cause => exact ⟨rfl, hagree⟩
    | ok h =>
      rw [← name_of_resolve hresolve] at hagree ⊢
      exact ⟨congrArg Answer.task hagree.task?, hagree⟩

/-! ## Whole runs -/

/-- Between operations all tasks rest, and their alerts are their own. -/
structure Quiet (r : Registry) : Prop where
  rest : ∀ name, ∀ t ∈ (r.named name).started, t.AtRest
  owned : ∀ name, ∀ t ∈ (r.named name).started, t.network.Owned name

theorem quiet_new (clock : Clock) (settings : Settings) : (new clock settings).Quiet :=
  ⟨fun _ => nofun, fun _ => nofun⟩

theorem Quiet.restsBeside (h : r.Quiet) (name : String) : r.RestsBeside name :=
  fun other _ => h.rest other

theorem Quiet.perform (h : r.Quiet) (op : Operation) :
    Confined op.name r (r.perform op).1 ∧ Confined op.name r (r.perform op).1.settle := by
  have hperform := confined_perform (h.restsBeside op.name)
  exact ⟨hperform, hperform.trans (confined_settle ((h.restsBeside op.name).confined hperform))⟩

/-- A step changes the tasks of one name. -/
theorem Quiet.confined (h : r.Quiet) (op : Operation) : Confined op.name r (r.step op).1 := by
  obtain ⟨-, hsettle⟩ := h.perform op
  exact hsettle.trans (confined_takeAlerts ((h.restsBeside op.name).confined hsettle))

theorem Quiet.owned_confined (h : r.Quiet) (hconfined : Confined name r r') (other : String) :
    ∀ t ∈ (r'.named other).started, t.network.Owned other := by
  by_cases hother : other = name
  · rw [hother]
    exact hconfined.owned (h.owned name)
  · rw [hconfined.others other hother]
    exact h.owned other

/-- Whatever a step does, all tasks have settled afterwards. -/
theorem Quiet.step (h : r.Quiet) (op : Operation) : (r.step op).1.Quiet := by
  refine ⟨fun name t ht => ?_, h.owned_confined (h.confined op)⟩
  rw [Registry.step, named_takeAlerts, named_settle, List.map_map] at ht
  obtain ⟨u, hu, rfl⟩ := List.mem_map.1 ht
  exact PipelineTask.atRest_settle (h.owned_confined (h.perform op).1 name u hu).capacity _

/-- The alerts of a step are those of the tasks of its name. -/
theorem Quiet.alerts_eq (h : r.Quiet) (op : Operation) : (r.step op).2.alerts =
    ((r.perform op).1.settle.named op.name).started.flatMap fun t => t.takeAlerts.2 :=
  takeAlerts_of_restsBeside ((h.restsBeside op.name).confined (h.perform op).2)

theorem Quiet.task_alerts (h : r.Quiet) (op : Operation) :
    ∀ a ∈ (r.step op).2.alerts, a.task = op.name := by
  intro a ha
  rw [h.alerts_eq op] at ha
  obtain ⟨t, ht, ha⟩ := List.mem_flatMap.1 ha
  exact (h.owned_confined (h.perform op).2 op.name t ht).alerts a ha

/-- A step comes to the same in registries that have the same tasks of its name. -/
theorem Agree.step {op : Operation} (hagree : Agree op.name r r') (hr : r.Quiet) (hr' : r'.Quiet) :
    (r.step op).2 = (r'.step op).2 ∧ Agree op.name (r.step op).1 (r'.step op).1 := by
  obtain ⟨hanswer, hperform⟩ := hagree.perform
  refine ⟨?_, hperform.settle.takeAlerts⟩
  have halerts : (r.step op).2.alerts = (r'.step op).2.alerts := by
    rw [hr.alerts_eq, hr'.alerts_eq, hperform.settle.named]
  show Exchange.mk op (r.perform op).2 (r.step op).2.alerts =
    Exchange.mk op (r'.perform op).2 (r'.step op).2.alerts
  rw [hanswer, halerts]

/-- A step of another name does not show. -/
theorem Agree.step_other {op : Operation} (hagree : Agree name r r') (hr : r.Quiet)
    (hne : op.name ≠ name) : Agree name (r.step op).1 r' := by
  have hconfined := hr.confined op
  exact ⟨hconfined.clock.trans hagree.clock, hconfined.settings.trans hagree.settings,
    (hconfined.others name (Ne.symm hne)).trans hagree.named⟩

/-- The operations of one name come to the same without the others, and those of other names give no
alerts of it. -/
theorem Agree.run (hagree : Agree name r r') (hr : r.Quiet) (hr' : r'.Quiet)
    (ops : List Operation) :
    (r.run ops).2.filter (·.operation.name = name) =
        (r'.run (ops.filter (·.name = name))).2 ∧
      ((r.run ops).2.flatMap (·.alerts)).filter (·.task = name) =
        (r'.run (ops.filter (·.name = name))).2.flatMap (·.alerts) ∧
      Agree name (r.run ops).1 (r'.run (ops.filter (·.name = name))).1 := by
  induction ops generalizing r r' with
  | nil => exact ⟨rfl, rfl, hagree⟩
  | cons op rest ih =>
    have htasks := hr.task_alerts op
    rw [run_cons, List.filter_cons, operation_step, List.flatMap_cons, List.filter_append,
      List.filter_cons]
    -- both registries take a step of the name, and only the first one any other
    by_cases hname : op.name = name
    · subst hname
      obtain ⟨hexchange, hstep⟩ := hagree.step hr hr'
      obtain ⟨hown, halerts, hlast⟩ := ih hstep (hr.step op) (hr'.step op)
      have hall : (r.step op).2.alerts.filter (·.task = op.name) = (r.step op).2.alerts :=
        List.filter_eq_self.2 fun a ha => decide_eq_true (htasks a ha)
      rw [if_pos (decide_eq_true rfl), if_pos (decide_eq_true rfl), run_cons, List.flatMap_cons,
        ← hexchange, hall, hown, halerts]
      exact ⟨rfl, rfl, hlast⟩
    · obtain ⟨hown, halerts, hlast⟩ := ih (hagree.step_other hr hname) (hr.step op) hr'
      have hnone : (r.step op).2.alerts.filter (·.task = name) = [] :=
        List.filter_eq_nil_iff.2 fun a ha htask =>
          hname ((htasks a ha).symm.trans (of_decide_eq_true htask))
      have hskip : ¬ decide (op.name = name) = true := by simpa using hname
      rw [if_neg hskip, if_neg hskip, hown, hnone, halerts]
      exact ⟨rfl, rfl, hlast⟩

/-- Tasks of one name go on as if nothing were asked of others. Without all other operations, the
answers to its own are the same, its alerts are the same, all its tasks stand where they stood, and
it is registered or not as before. -/
theorem run_isolated (clock : Clock) (settings : Settings) (ops : List Operation) (name : String) :
    let all := (new clock settings).run ops
    let own := (new clock settings).run (ops.filter (·.name = name))
    all.2.filter (·.operation.name = name) = own.2 ∧
      (all.2.flatMap (·.alerts)).filter (·.task = name) = own.2.flatMap (·.alerts) ∧
      (∀ h, h.name = name → all.1.task? h = own.1.task? h) ∧
      all.1.find name = own.1.find name ∧ (name ∈ all.1.running ↔ name ∈ own.1.running) := by
  intro all own
  have hsame : Agree name (new clock settings) (new clock settings) := ⟨rfl, rfl, rfl⟩
  obtain ⟨hown, halerts, hlast⟩ :=
    hsame.run (quiet_new clock settings) (quiet_new clock settings) ops
  refine ⟨hown, halerts, ?_, hlast.find, ?_⟩
  · rintro h rfl
    exact hlast.task?
  · rw [mem_running_iff, mem_running_iff, hlast.named]

end Registry

end SeriesPipeline
