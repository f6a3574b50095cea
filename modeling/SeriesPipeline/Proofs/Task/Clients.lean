import SeriesPipeline.Proofs.Replay.Deliveries
import SeriesPipeline.Proofs.Task.Traffic

/-!
# What clients have come to know

A client whose call was rejected, or whose replay has come to some end, knows something of the task:
that its input is closed, that a source is gone, that a failure is recorded, or that the abort was
asked for. None of this is undone, so it is enough to look at what each client does itself.
-/

namespace SeriesPipeline

/-- Not everything that is sent is taken any more. -/
def PipelineTask.IsShut (t : PipelineTask) : Prop :=
  t.inlets = none ∨ ∃ inlet ∈ t.plan.inlets, ∃ q,
    t.network.processes[inlet.process]? = some q ∧ q.phase.isOpen = false

/-- A message is for a source, and is a close only after a close was begun. -/
def Send.IsFor (p : Plan) (closes : Prop) (s : Send) : Prop :=
  s.1 ∈ p.inlets.map (·.process) ∧ (s.2 = .close → closes)

/-- What a client knows of the task. `closes` tells whether a close was begun. -/
inductive Client.Knows (t : PipelineTask) (closes : Prop) : Client → Prop where
  | fresh (c : Call) : Knows t closes (.call c .fresh)
  | sending {c : Call} {sends : List Send} (h : ∀ s ∈ sends, s.IsFor t.plan closes) :
    Knows t closes (.call c (.sending sends))
  | returned (c : Call) : Knows t closes (.call c .returned)
  | rejected {c : Call} (h : t.IsShut) : Knows t closes (.call c .rejected)
  | recording (cause : Failure) : Knows t closes (.report cause .recording)
  | requesting {cause : Failure} (h : t.failure.isSome) : Knows t closes (.report cause .requesting)
  | done {cause : Failure} (h : t.failure.isSome) (habort : t.abortRequested = true) :
    Knows t closes (.report cause .done)
  | opening (mode : ReplayMode) (path : String) (found : Found) :
    Knows t closes (.replay (.opening mode path found))
  /-- The close is among the last calls. -/
  | feeding {r : Replay} (hsends : ∀ s ∈ r.sends, s.IsFor t.plan closes)
    (hending : r.ending = true → .close ∈ r.calls ∨ t.inlets = none) :
    Knows t closes (.replay (.feeding r))
  | finished (h : t.inlets = none) : Knows t closes (.replay (.ended (.ok ())))
  | stopped {name : String} (hname : name = t.name) (h : t.IsShut) :
    Knows t closes (.replay (.ended (.error (.inputClosed name))))
  | broken {cause : Failure} (h : ∀ name, cause ≠ .inputClosed name) :
    Knows t closes (.replay (.ended (.error cause)))
  | failing (cause : Failure) : Knows t closes (.replay (.failing cause))
  | aborting {cause : Failure} (h : t.failure.isSome) : Knows t closes (.replay (.aborting cause))
  | succeeded (h : t.inlets = none) : Knows t closes (.replay (.reported (.ok ())))
  | failed {cause : Failure} (h : t.failure.isSome) (habort : t.abortRequested = true) :
    Knows t closes (.replay (.reported (.error cause)))
  /-- The replay was stopped by the failure of the task. -/
  | blamed {name : String} {first : Failure} (hname : name = t.name) (hfirst : t.failure = some first)
    (h : t.IsShut) : Knows t closes (.replay (.reported (.error (.task name first))))

/-- What an intent of a client leads to is something that the client may know then. -/
def Intent.Keeps (t : PipelineTask) (closes : Prop) : Intent → Prop
  | .send s sent rejected =>
    s.IsFor t.plan closes ∧ sent.Knows t closes ∧ (t.IsShut → rejected.Knows t closes)
  | .begin c begun refused =>
    (∀ t' sends, t.begin? c = some (t', sends) → (begun sends).Knows t' (closes ∨ c = .close)) ∧
      (t.begin? c = none → refused.Knows t closes)
  | .turn _ next => next.Knows t closes
  | .record cause next => next.Knows (t.record cause) closes
  | .requestAbort next => t.failure.isSome ∧ next.Knows t.requestAbort closes
  | .rest => True

variable {t t' : PipelineTask} {closes closes' : Prop} {client : Client} {clock : Clock}

theorem PipelineTask.IsShut.later (h : t.IsShut) (hlater : t.Later t') : t'.IsShut := by
  obtain hnone | ⟨inlet, hinlet, q, hq, hclosed⟩ := h
  · exact .inl (hlater.inlets hnone)
  · obtain ⟨q', hq', hclosed'⟩ := hlater.gone _ q hq hclosed
    exact .inr ⟨inlet, hlater.plan.symm ▸ hinlet, q', hq', hclosed'⟩

theorem Send.IsFor.mono {p : Plan} {s : Send} (h : s.IsFor p closes) (hcloses : closes → closes') :
    s.IsFor p closes' :=
  ⟨h.1, hcloses ∘ h.2⟩

namespace Client

theorem Knows.later (h : client.Knows t closes) (hlater : t.Later t')
    (hcloses : closes → closes') : client.Knows t' closes' := by
  have hname : t'.name = t.name := congrArg Plan.name hlater.plan
  have hsends {sends : List Send} (hsends : ∀ s ∈ sends, s.IsFor t.plan closes) :
      ∀ s ∈ sends, s.IsFor t'.plan closes' := by
    rw [hlater.plan]
    exact fun s hs => (hsends s hs).mono hcloses
  cases h with
  | fresh c => exact .fresh c
  | sending h => exact .sending (hsends h)
  | returned c => exact .returned c
  | rejected h => exact .rejected (h.later hlater)
  | recording cause => exact .recording cause
  | requesting h => exact .requesting (hlater.isSome_failure h)
  | done h habort => exact .done (hlater.isSome_failure h) (hlater.abort habort)
  | opening mode path found => exact .opening mode path found
  | feeding h hending =>
    exact .feeding (hsends h) fun hend => (hending hend).imp_right hlater.inlets
  | finished h => exact .finished (hlater.inlets h)
  | stopped hsame h => exact .stopped (hsame.trans hname.symm) (h.later hlater)
  | broken h => exact .broken h
  | failing cause => exact .failing cause
  | aborting h => exact .aborting (hlater.isSome_failure h)
  | succeeded h => exact .succeeded (hlater.inlets h)
  | failed h habort => exact .failed (hlater.isSome_failure h) (hlater.abort habort)
  | blamed hsame hfirst h =>
    exact .blamed (hsame.trans hname.symm) (hlater.failure _ hfirst) (h.later hlater)

theorem IsNew.knows (h : client.IsNew) : client.Knows t closes := by
  cases h with
  | call c => exact .fresh c
  | report cause => exact .recording cause
  | batches mode batches => exact .feeding nofun nofun
  | file mode path found => exact .opening mode path found

end Client

/-! ## Single clients -/

/-- The inlets of a task are those of its plan, as long as they are there. -/
def PipelineTask.IsAttached (t : PipelineTask) : Prop :=
  t.inlets = some t.plan.inlets ∨ t.inlets = none

theorem PipelineTask.isAttached_of_begin? (hattached : t.IsAttached) {c : Call} {sends : List Send}
    (h : t.begin? c = some (t', sends)) : t'.IsAttached := by
  obtain rfl | ⟨-, rfl⟩ := eq_of_begin? h
  · exact hattached
  · exact .inr rfl

/-- The sends of a call that begins. -/
theorem PipelineTask.isFor_of_begin? (hattached : t.IsAttached) {c : Call} {sends : List Send}
    (h : t.begin? c = some (t', sends)) :
    (∀ s ∈ sends, s.IsFor t'.plan (closes ∨ c = .close)) ∧ (c = .close → t'.inlets = none) := by
  obtain ⟨⟨hplan, -, -⟩, hbegins⟩ := of_begin?_eq_some h
  obtain ⟨inlets, hinlets, rfl, hinlets'⟩ | ⟨rfl, -, hnone, rfl⟩ := hbegins
  · obtain hall | hnone := hattached
    · cases hall.symm.trans hinlets
      refine ⟨fun s hs => ?_, fun hc => ?_⟩
      · obtain ⟨inlet, hinlet, rfl⟩ := List.mem_map.1 hs
        refine ⟨hplan ▸ List.mem_map_of_mem (List.mem_of_mem_filter hinlet), fun hclose => ?_⟩
        cases c with
        | close => exact .inr rfl
        | batch b => cases hclose
        | barrier time => cases hclose
      · exact (hinlets'.resolve_left fun h => h.2 hc).1
    · cases hnone.symm.trans hinlets
  · exact ⟨nofun, fun _ => hnone⟩

theorem PipelineTask.isShut_of_begin? {c : Call} (h : t.begin? c = none) : t.IsShut := by
  unfold begin? at h
  cases hinlets : t.inlets with
  | none => exact .inl hinlets
  | some inlets =>
    rw [hinlets] at h
    cases c <;> cases h

theorem PipelineTask.Moves.isAttached {now : Instant} {move : Move} (h : t.Moves now move t')
    (hattached : t.IsAttached) : t'.IsAttached := by
  cases h with
  | steps => exact hattached
  | aborts => exact hattached
  | shuts => exact .inr rfl
  | finishes => exact hattached

theorem replayFile_ne_inputClosed {path : String} {found : Found} {cause : Failure}
    (h : replayFile path found = .error cause) (name : String) : cause ≠ .inputClosed name := by
  rintro rfl
  unfold replayFile at h
  split at h
  · cases h
  · cases h
  · split at h <;> cases h

namespace Replay

variable {r : Replay}

theorem keeps_intent (hattached : t.IsAttached) (hsends : ∀ s ∈ r.sends, s.IsFor t.plan closes)
    (hending : r.ending = true → .close ∈ r.calls ∨ t.inlets = none) :
    (r.intent clock t.name).Keeps t closes := by
  unfold intent
  split
  · rename_i s sends heq
    obtain ⟨hs, hrest⟩ := List.forall_mem_cons.1 (heq ▸ hsends)
    exact ⟨hs, .feeding hrest hending, fun hshut => .stopped rfl hshut⟩
  · rename_i c calls heq hcalls
    constructor
    · intro t' sends hbegin
      obtain ⟨hfor, hclose⟩ := PipelineTask.isFor_of_begin? hattached hbegin
      refine .feeding hfor fun hend => ?_
      rcases hending hend with hmem | hnone
      · rw [hcalls] at hmem
        rcases List.mem_cons.1 hmem with rfl | hmem
        · exact .inr (hclose rfl)
        · exact .inl hmem
      · exact .inr ((PipelineTask.later_begin? hbegin).inlets hnone)
    · exact fun hbegin => .stopped rfl (PipelineTask.isShut_of_begin? hbegin)
  · rename_i heq hcalls
    have hnone (hend : r.ending = true) : t.inlets = none :=
      (hending hend).resolve_left fun hmem => by
        rw [hcalls] at hmem
        cases hmem
    have hturns := turns_next clock r
    generalize r.next clock = next at hturns
    cases hturns with
    | finished _ hend => exact .finished (hnone hend)
    | ends =>
      exact .feeding hsends fun _ => .inl (List.mem_cons_of_mem _ (List.mem_singleton_self _))
    | skips => exact .feeding hsends fun hend => .inr (hnone hend)
    | outOfOrder => exact .broken nofun
    | waits => trivial
    | takes => exact .feeding hsends fun hend => .inr (hnone hend)

/-- A replay that was stopped looks for the failure of the task. It fails the task itself in all
other cases, and when it finds none. -/
theorem keeps_closing {outcome : Except Failure Unit}
    (h : (Client.replay (.ended outcome)).Knows t closes) :
    (closing clock t outcome).Keeps t closes := by
  cases h with
  | finished hnone => exact .succeeded hnone
  | stopped hname hshut =>
    unfold closing
    dsimp only
    split
    · rename_i heq hfailure
      cases heq
      exact .blamed hname hfailure hshut
    · exact .failing _
  | broken hcause =>
    unfold closing
    dsimp only
    split
    · exact absurd rfl (hcause _)
    · exact .failing _

end Replay

theorem PipelineTask.isSome_failure_record (t : PipelineTask) (cause : Failure) :
    (t.record cause).failure.isSome :=
  (t.network.results.failure_record cause).1

theorem Client.Knows.keeps_intent (h : client.Knows t closes) (hattached : t.IsAttached) :
    (client.intent clock t).Keeps t closes := by
  cases h with
  | fresh c =>
    refine ⟨fun t' sends hbegin => ?_, fun hbegin => ?_⟩
    · exact .sending (PipelineTask.isFor_of_begin? hattached hbegin).1
    · exact .rejected (PipelineTask.isShut_of_begin? hbegin)
  | @sending c sends h =>
    cases sends with
    | nil => exact .returned c
    | cons s sends =>
      obtain ⟨hs, hrest⟩ := List.forall_mem_cons.1 h
      exact ⟨hs, .sending hrest, fun hshut => .rejected hshut⟩
  | returned => trivial
  | rejected => trivial
  | recording cause => exact .requesting (t.isSome_failure_record cause)
  | requesting h => exact ⟨h, .done h rfl⟩
  | done => trivial
  | opening mode path found =>
    rw [intent, ReplayPhase.intent]
    split
    · exact .feeding nofun nofun
    · rename_i hfile
      exact .broken (replayFile_ne_inputClosed hfile)
  | feeding hsends hending => exact Replay.keeps_intent hattached hsends hending
  | finished h =>
    have hended : (Client.replay (.ended (.ok ()))).Knows t closes := .finished h
    exact Replay.keeps_closing hended
  | @stopped name hname h =>
    have hended : (Client.replay (.ended (.error (.inputClosed name)))).Knows t closes :=
      .stopped hname h
    exact Replay.keeps_closing hended
  | @broken cause h =>
    have hended : (Client.replay (.ended (.error cause))).Knows t closes := .broken h
    exact Replay.keeps_closing hended
  | failing cause => exact .aborting (t.isSome_failure_record (.replay cause))
  | aborting h => exact ⟨h, .failed h rfl⟩
  | succeeded => trivial
  | failed => trivial
  | blamed => trivial

/-! ## All clients -/

namespace Traffic

/-- Some client has begun to close the input. -/
def Closes (x : Traffic) : Prop := ∃ i, (i, .close) ∈ x.begun

/-- A traffic of plan `p`, whose clients all know what they may, and in which sources have been given
no close before one was begun. -/
structure Informed (p : Plan) (x : Traffic) : Prop where
  plan : x.task.plan = p
  attached : x.task.IsAttached
  grows : x.Grows p.network
  clients : ∀ client ∈ x.clients, client.Knows x.task x.Closes
  fed : ∀ k, ∀ m ∈ fedTo k x.log, Send.IsFor p x.Closes (k, m)

variable {p : Plan} {x x' : Traffic} {i : Nat} {move : Move}

theorem informed_start {clients : List Client} (hnew : ∀ client ∈ clients, client.IsNew)
    (clock : Clock) (p : Plan) : (start clock p clients).Informed p where
  plan := rfl
  attached := .inl rfl
  grows := grows_start clock p clients
  clients client hclient := (hnew client hclient).knows
  fed _ _ hm := nomatch hm

/-- Every source has its process. -/
theorem Grows.exists_process (h : x.Grows p.network) {inlet : Inlet} (hinlet : inlet ∈ p.inlets) :
    ∃ q, x.task.network.processes[inlet.process]? = some q := by
  obtain ⟨s, -, hs, -⟩ := Plan.exists_source_of_mem_inlets (List.mem_map_of_mem hinlet)
  obtain ⟨q, hq, -⟩ := Execution.Reached.follows h hs
  exact ⟨q, hq⟩

/-- A message that is not taken was for a source that is gone. -/
theorem Informed.isShut_of_gone (h : x.Informed p) {s : Send} (hs : s.IsFor p x.Closes)
    (hoffer : x.task.network.offer s.1 ⟨0, s.2⟩ = .gone) : x.task.IsShut := by
  obtain ⟨inlet, hinlet, hprocess⟩ := List.mem_map.1 hs.1
  obtain ⟨q, hq⟩ := h.grows.exists_process hinlet
  refine .inr ⟨inlet, h.plan.symm ▸ hinlet, q, hq, ?_⟩
  rw [hprocess] at hq
  rw [Network.offer] at hoffer
  cases hto : Network.offerTo x.task.network.capacity x.task.network.processes s.1 ⟨0, s.2⟩ with
  | gone => exact Network.of_offerTo_eq_gone hto q hq
  | taken processes =>
    rw [hto] at hoffer
    cases hoffer
  | full =>
    rw [hto] at hoffer
    cases hoffer

theorem Closes.of_append {added : List (Nat × Call)} (h : x.Closes)
    (hbegun : x'.begun = x.begun ++ added) : x'.Closes := by
  obtain ⟨i, hi⟩ := h
  exact ⟨i, hbegun ▸ List.mem_append_left _ hi⟩

/-- The task goes on, and one client becomes another. -/
theorem Informed.of_set (h : x.Informed p) (hgrows : x'.Grows p.network)
    (hlater : x.task.Later x'.task) (hattached : x'.task.IsAttached)
    (hcloses : x.Closes → x'.Closes) {next : Client} (hnext : next.Knows x'.task x'.Closes)
    (hclients : x'.clients = x.clients.set i next)
    (hfed : ∀ k, ∀ m ∈ fedTo k x'.log, m ∈ fedTo k x.log ∨ Send.IsFor p x.Closes (k, m)) :
    x'.Informed p where
  plan := hlater.plan.trans h.plan
  attached := hattached
  grows := hgrows
  clients client hclient := by
    rw [hclients] at hclient
    rcases List.mem_or_eq_of_mem_set hclient with hold | rfl
    · exact (h.clients client hold).later hlater hcloses
    · exact hnext
  fed k m hm := ((hfed k m hm).elim (h.fed k m) id).mono hcloses

/-- A message is given to its process. -/
theorem fedTo_concat {log : List Event} {s : Send} {k : Nat} {m : Message}
    (h : m ∈ fedTo k (log ++ [.fed s.1 s.2])) : m ∈ fedTo k log ∨ (k, m) = s := by
  rw [fedTo_append, List.mem_append] at h
  refine h.imp_right fun h => ?_
  obtain heq | heq := List.mem_cons.1 (mem_fedTo.1 h)
  · cases heq
    rfl
  · cases heq

theorem Informed.acts (h : x.Informed p) {client : Client} (hclient : client ∈ x.clients)
    (hacts : x.Acts i (client.intent x.clock x.task) x') : x'.Informed p := by
  have hkeeps : (client.intent x.clock x.task).Keeps x.task x.Closes :=
    (h.clients client hclient).keeps_intent h.attached
  have hgrows := h.grows.acts hacts
  have hlater := hacts.later
  generalize client.intent x.clock x.task = intent at hacts hkeeps
  have hgiven {s : Send} {log : List Event} (hs : s.IsFor x.task.plan x.Closes)
      (hlog : log = x.log ++ [.fed s.1 s.2]) (k : Nat) (m : Message) (hm : m ∈ fedTo k log) :
      m ∈ fedTo k x.log ∨ Send.IsFor p x.Closes (k, m) :=
    (fedTo_concat (hlog ▸ hm)).imp_right fun heq => by
      rw [heq, ← h.plan]
      exact hs
  cases hacts with
  | sends hoffer =>
    obtain ⟨hs, hsent, -⟩ := hkeeps
    exact h.of_set hgrows hlater h.attached id (hsent.later hlater id) rfl (hgiven hs rfl)
  | misses =>
    obtain ⟨hs, hsent, -⟩ := hkeeps
    exact h.of_set hgrows hlater h.attached id hsent rfl (hgiven hs rfl)
  | rejected hoffer =>
    obtain ⟨hs, -, hrejected⟩ := hkeeps
    exact h.of_set hgrows hlater h.attached id
      (hrejected (h.isShut_of_gone (h.plan ▸ hs) hoffer)) rfl (hgiven hs rfl)
  | @begins c begun refused task sends hbegin =>
    have hnext := hkeeps.1 task sends hbegin
    refine h.of_set hgrows hlater (PipelineTask.isAttached_of_begin? h.attached hbegin)
      (fun hcloses => hcloses.of_append rfl) (hnext.later (.refl task) ?_) rfl fun k m => .inl
    rintro (hcloses | rfl)
    · exact hcloses.of_append rfl
    · exact ⟨i, List.mem_append_right _ (List.mem_singleton_self _)⟩
  | refused hbegin =>
    exact h.of_set hgrows hlater h.attached id (hkeeps.2 hbegin) rfl fun k m => .inl
  | turns => exact h.of_set hgrows hlater h.attached id hkeeps rfl fun k m => .inl
  | records => exact h.of_set hgrows hlater h.attached id hkeeps rfl fun k m => .inl
  | requests => exact h.of_set hgrows hlater h.attached id hkeeps.2 rfl fun k m => .inl

theorem fedTo_eventsOf (x : Traffic) (move : PipelineTask.Move) (k : Nat) :
    fedTo k (x.eventsOf move) = [] := by
  cases move with
  | step i =>
    rw [eventsOf]
    cases x.task.network.processes[i]? with
    | none => rfl
    | some q =>
      rw [Option.toList_some, List.flatMap_singleton]
      exact fedTo_events k x.clock.now i q
  | _ => rfl

theorem Informed.moves (h : x.Informed p) (hmoves : x.Moves move x') : x'.Informed p := by
  have hgrows := h.grows.step hmoves
  have hlater := hmoves.later
  cases hmoves with
  | acts hclient hacts => exact h.acts (List.mem_of_getElem? hclient) hacts
  | moves hmoves =>
    refine ⟨hlater.plan.trans h.plan, ?_, hgrows, ?_, ?_⟩
    · exact hmoves.isAttached h.attached
    · exact fun client hclient => (h.clients client hclient).later hlater id
    · intro k m hm
      rw [fedTo_append, fedTo_eventsOf, List.append_nil] at hm
      exact h.fed k m hm
  | sets => exact ⟨h.plan, h.attached, hgrows, h.clients, h.fed⟩

theorem informed_of_run {clients : List Client} (hnew : ∀ client ∈ clients, client.IsNew)
    {clock : Clock} {moves : List Move} (hrun : (start clock p clients).run moves = some x) :
    x.Informed p :=
  run_induction (fun _ _ _ h => h.moves) (informed_start hnew clock p) hrun

end Traffic

end SeriesPipeline
