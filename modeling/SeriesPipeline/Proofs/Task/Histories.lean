import SeriesPipeline.Proofs.Stage.Clock
import SeriesPipeline.Proofs.Task.Logs

/-!
# Histories of processes

In every execution a process takes the beginning of what has arrived, and what has become of it
follows from what it has taken: the state of its stage, and what it publishes, alerts and sends. An
abort only cuts short what is sent.
-/

namespace SeriesPipeline

namespace Process

/-- What has become of the stage of a process by what the process has taken. -/
def courseOf (p : Process) (history : List Incident) : Course :=
  p.stage.course .epoch (takings history)

/-- A process that was `start` at first has become `p` by its history. -/
structure Follows (start : Process) (history : List Incident) (p : Process) : Prop where
  outlets : p.outlets = start.outlets
  stage : p.stage = (start.courseOf history).stage
  published : (start.courseOf history).reaction.published =
    (reactions history).flatMap (·.published)
  alerts : (start.courseOf history).reaction.alerts =
    ((reactions history).flatMap (·.alerts)).map Alert.unobserved
  progress : p.phase ≠ .aborted →
    (p.phase = .running ↔ (start.courseOf history).progress = .running)
  taken : takings history <+: arrivals history
  inbox : p.phase.isOpen = true → takings history ++ p.inbox = arrivals history
  sent : sendings history ++ p.outbox <+:
    start.broadcast ((start.courseOf history).reaction.sent ++ [.close])
  outbox : p.phase.isOpen = true →
    sendings history ++ p.outbox = start.broadcast (start.courseOf history).reaction.sent
  closed : ∀ failure, p.phase = .closed failure →
    sendings history ++ p.outbox =
      start.broadcast ((start.courseOf history).reaction.sent ++ [.close])

/-- A process that has neither received nor sent anything. -/
structure IsNew (p : Process) : Prop where
  inbox : p.inbox = []
  outbox : p.outbox = []
  phase : p.phase = .running

variable {start p p' : Process} {history incidents : List Incident}

theorem broadcast_append (p : Process) (messages later : List Message) :
    p.broadcast (messages ++ later) = p.broadcast messages ++ p.broadcast later :=
  List.flatMap_append

theorem follows_start (h : start.IsNew) : start.Follows [] start where
  outlets := rfl
  stage := rfl
  published := rfl
  alerts := rfl
  progress _ := iff_of_true h.phase rfl
  taken := List.nil_prefix
  inbox _ := h.inbox
  sent := h.outbox ▸ List.nil_prefix
  outbox _ := h.outbox
  closed _ hphase := nomatch h.phase.symm.trans hphase

theorem broadcast_eq (h : p.outlets = start.outlets) (messages : List Message) :
    p.broadcast messages = start.broadcast messages := by
  rw [broadcast, h, broadcast]

theorem progress_phaseAfter (progress : Progress) :
    Network.phaseAfter progress = .running ↔ progress = .running := by
  cases progress <;> simp [Network.phaseAfter]

theorem isOpen_phaseAfter (progress : Progress) : (Network.phaseAfter progress).isOpen = true := by
  cases progress <;> rfl

/-- A change in which nothing is taken. -/
theorem Follows.of_not_taking (h : start.Follows history p) (htakings : takings incidents = [])
    (hreactions : reactions incidents = []) (hstage : p'.stage = p.stage)
    (houtlets : p'.outlets = p.outlets)
    (hprogress : p'.phase ≠ .aborted →
      (p'.phase = .running ↔ (start.courseOf history).progress = .running))
    (hinbox : p'.phase.isOpen = true →
      takings history ++ p'.inbox = arrivals history ++ arrivals incidents)
    (hsent : sendings history ++ (sendings incidents ++ p'.outbox) <+:
      start.broadcast ((start.courseOf history).reaction.sent ++ [.close]))
    (houtbox : p'.phase.isOpen = true → sendings history ++ (sendings incidents ++ p'.outbox) =
      start.broadcast (start.courseOf history).reaction.sent)
    (hclosed : ∀ failure, p'.phase = .closed failure →
      sendings history ++ (sendings incidents ++ p'.outbox) =
        start.broadcast ((start.courseOf history).reaction.sent ++ [.close])) :
    start.Follows (history ++ incidents) p' := by
  have htaken : takings (history ++ incidents) = takings history := by
    rw [takings_append, htakings, List.append_nil]
  have hcourse : start.courseOf (history ++ incidents) = start.courseOf history := by
    rw [courseOf, htaken, courseOf]
  have hreacted : reactions (history ++ incidents) = reactions history := by
    rw [reactions_append, hreactions, List.append_nil]
  constructor
  · exact houtlets.trans h.outlets
  · rw [hstage, hcourse, h.stage]
  · rw [hcourse, hreacted, h.published]
  · rw [hcourse, hreacted, h.alerts]
  · rwa [hcourse]
  · rw [htaken, arrivals_append]
    exact h.taken.trans (List.prefix_append _ _)
  · rwa [htaken, arrivals_append]
  · rwa [hcourse, sendings_append, List.append_assoc]
  · rwa [hcourse, sendings_append, List.append_assoc]
  · rwa [hcourse, sendings_append, List.append_assoc]

/-- The stage answers to an envelope. -/
theorem Follows.takes (h : start.Follows history p) {now : Instant} {e : Envelope}
    {inbox : List Envelope} {stage : Stage} {reaction : Reaction} {progress : Progress}
    (hout : p.outbox = []) (hphase : p.phase = .running) (hin : p.inbox = e :: inbox)
    (hreceive : p.stage.receive now e = (stage, reaction, progress)) :
    start.Follows (history ++ [.took e reaction])
      ⟨stage, p.outlets, inbox, p.broadcast reaction.sent, Network.phaseAfter progress⟩ := by
  have hopen : p.phase.isOpen = true := by rw [hphase]; rfl
  have hrunning : (start.courseOf history).progress = .running :=
    (h.progress (by rw [hphase]; nofun)).1 hphase
  -- the time at which the envelope is taken shows in alerts only
  have hcourse : start.courseOf (history ++ [.took e reaction]) =
      ⟨stage, (start.courseOf history).reaction ++ reaction.unobserved, progress⟩ := by
    rw [courseOf, takings_append, show takings [.took e reaction] = [e] from rfl,
      Stage.course_concat, ← courseOf, Course.take_of_running hrunning, ← h.stage,
      Stage.receive_unobserved now, hreceive]
  have hreactions : reactions (history ++ [.took e reaction]) = reactions history ++ [reaction] :=
    reactions_append ..
  have hsendings : sendings (history ++ [.took e reaction]) = sendings history :=
    (sendings_append ..).trans (List.append_nil _)
  have harrivals : arrivals (history ++ [.took e reaction]) = arrivals history :=
    (arrivals_append ..).trans (List.append_nil _)
  have htakings : takings (history ++ [.took e reaction]) ++ inbox = arrivals history := by
    rw [takings_append, List.append_assoc, ← h.inbox hopen, hin]
    rfl
  have hsent : sendings history ++ p.broadcast reaction.sent =
      start.broadcast ((start.courseOf history).reaction.sent ++ reaction.sent) := by
    rw [broadcast_append, ← h.outbox hopen, hout, List.append_nil, broadcast_eq h.outlets]
  constructor
  · exact h.outlets
  · rw [hcourse]
  · rw [hcourse, hreactions, List.flatMap_append, List.flatMap_singleton, ← h.published]
    rfl
  · rw [hcourse, hreactions, List.flatMap_append, List.flatMap_singleton, List.map_append,
      ← h.alerts]
    rfl
  · rw [hcourse]
    exact fun _ => progress_phaseAfter progress
  · rw [harrivals, ← htakings]
    exact List.prefix_append _ _
  · rw [harrivals]
    exact fun _ => htakings
  · rw [hcourse, hsendings, hsent]
    exact (broadcast_append start (_ ++ reaction.sent) _).symm ▸ List.prefix_append _ _
  · rw [hcourse, hsendings, hsent]
    exact fun _ => rfl
  · intro failure (hclosed : Network.phaseAfter progress = _)
    have hstillOpen := isOpen_phaseAfter progress
    rw [hclosed] at hstillOpen
    cases hstillOpen

theorem Follows.abort (h : start.Follows history p) : start.Follows history p.abort := by
  rw [Process.abort]
  split
  · exact h
  · exact ⟨h.outlets, h.stage, h.published, h.alerts, fun hphase => absurd rfl hphase, h.taken,
      nofun, (List.append_nil _).symm ▸ (List.prefix_append _ _).trans h.sent, nofun, nofun⟩

theorem Follows.step (h : start.Follows history p) (hchanges : Changes incidents p p') :
    start.Follows (history ++ incidents) p' := by
  cases hchanges with
  | idle => rwa [List.append_nil]
  | accepts e hopen =>
    refine h.of_not_taking rfl rfl rfl rfl h.progress (fun _ => ?_) h.sent h.outbox h.closed
    rw [← h.inbox hopen, List.append_assoc]
    rfl
  | misses e hclosed =>
    refine h.of_not_taking rfl rfl rfl rfl h.progress (fun hopen => ?_) h.sent h.outbox h.closed
    rw [hclosed] at hopen
    cases hopen
  | sends hout =>
    have hsent := h.sent
    have houtbox := h.outbox
    have hclosed := h.closed
    rw [hout] at hsent houtbox hclosed
    refine h.of_not_taking rfl rfl rfl rfl h.progress (fun hopen => ?_) hsent houtbox hclosed
    rw [h.inbox hopen]
    exact (List.append_nil _).symm
  | takes now hout hphase hin => exact h.takes hout hphase hin rfl
  | records hphase =>
    have hopen : p.phase.isOpen = true := by rw [hphase]; rfl
    have hended : (start.courseOf history).progress ≠ .running := fun hrunning =>
      nomatch hphase.symm.trans ((h.progress (by rw [hphase]; nofun)).2 hrunning)
    refine h.of_not_taking rfl rfl rfl rfl (fun _ => iff_of_false nofun hended) (fun _ => ?_) h.sent
      (fun _ => h.outbox hopen) nofun
    rw [h.inbox hopen]
    exact (List.append_nil _).symm
  | leaves hout hphase =>
    have hopen : p.phase.isOpen = true := by rw [hphase]; rfl
    -- the close is the one message that the course of the stage does not send
    have hended : (start.courseOf history).progress ≠ .running := fun hrunning =>
      nomatch hphase.symm.trans ((h.progress (by rw [hphase]; nofun)).2 hrunning)
    have hsent : sendings history ++ p.broadcast [.close] =
        start.broadcast ((start.courseOf history).reaction.sent ++ [.close]) := by
      rw [broadcast_append, ← h.outbox hopen, hout, List.append_nil, broadcast_eq h.outlets]
    exact h.of_not_taking rfl rfl rfl rfl (fun _ => iff_of_false nofun hended) nofun
      (hsent ▸ List.prefix_refl _) nofun fun _ _ => hsent
  | aborts =>
    rw [List.append_nil]
    exact h.abort

/-- Whether the process has left by itself and has sent everything. -/
def hasEnded (p : Process) : Bool :=
  match p.phase with
  | .closed _ => p.outbox.isEmpty
  | _ => false

/-- A process that has ended has sent all that its stage gave out, and then its close. -/
theorem Follows.of_hasEnded (h : start.Follows history p) (hended : p.hasEnded = true) :
    (start.courseOf history).progress ≠ .running ∧
      sendings history =
        start.broadcast ((start.courseOf history).reaction.sent ++ [.close]) := by
  rw [hasEnded] at hended
  split at hended
  · rename_i failure hphase
    constructor
    · intro hrunning
      exact nomatch hphase.symm.trans ((h.progress (by rw [hphase]; nofun)).2 hrunning)
    · rw [← h.closed failure hphase, List.isEmpty_iff.1 hended, List.append_nil]
  · cases hended

end Process

/-! ## Executions -/

namespace Execution

/-- Where an execution that began with a network and feeds has come to. -/
structure Reached (n : Network) (given : Nat → List Message) (x : Execution) : Prop where
  processes : ∀ k, Option.Rel (fun p q => Process.Follows p (historyOf k x.log) q) n.processes[k]?
    x.network.processes[k]?
  actors : ∀ e ∈ x.log, ∀ k ∈ e.actor?, k < n.processes.length
  feeds : ∀ k, given k = fedTo k x.log ++ x.feeds k
  results : n.results.Gains x.log x.network.results

variable {n : Network} {given : Nat → List Message} {x x' : Execution} {events : List Event}

theorem reached_start (h : ∀ p ∈ n.processes, p.IsNew) : (start n given).Reached n given where
  processes k := by
    cases hp : n.processes[k]? with
    | none =>
      rw [start, hp]
      exact .none
    | some p =>
      rw [start, hp]
      exact .some (Process.follows_start (h p (List.mem_of_getElem? hp)))
  actors := nofun
  feeds _ := rfl
  results := gains_of_no_reaction _ rfl rfl

theorem lt_length_of_rel {R : Nat → Process → Process → Prop} {processes processes' : List Process}
    (h : ∀ k, Option.Rel (R k) processes[k]? processes'[k]?) {k : Nat}
    (hk : k < processes'.length) : k < processes.length := by
  have hrel := h k
  rw [List.getElem?_eq_getElem hk] at hrel
  by_contra hge
  rw [List.getElem?_eq_none (Nat.le_of_not_lt hge)] at hrel
  cases hrel

theorem rel_trans {α : Type} {R S T : α → α → Prop} (h : ∀ a b c, R a b → S b c → T a c)
    {a b c : Option α} (hab : Option.Rel R a b) (hbc : Option.Rel S b c) : Option.Rel T a c := by
  cases hab with
  | none =>
    cases hbc
    exact .none
  | some hab =>
    cases hbc with
    | some hbc => exact .some (h _ _ _ hab hbc)

theorem gains_append {r r' r'' : Results} {log : List Event} (h : r.Gains log r')
    (h' : r'.Gains events r'') : r.Gains (log ++ events) r'' where
  cache := by
    rw [h'.cache, h.cache, publishedIn, publishedIn, publishedIn, List.filterMap_append,
      List.flatMap_append, List.foldl_append]
  alerts := by
    rw [h'.alerts, h.alerts, alertsIn, alertsIn, alertsIn, List.filterMap_append,
      List.flatMap_append, List.append_assoc]

theorem Reached.makes (h : x.Reached n given) (hmakes : x.Makes events x') :
    x'.Reached n given where
  processes k := by
    rw [hmakes.log, historyOf_append]
    exact rel_trans (fun _ _ _ hfollows hchanges => hfollows.step hchanges) (h.processes k)
      (hmakes.processes k)
  actors := by
    rw [hmakes.log]
    refine List.forall_mem_append.2 ⟨h.actors, fun e he k hk => ?_⟩
    exact lt_length_of_rel h.processes (hmakes.actors e he k hk)
  feeds k := by
    rw [h.feeds k, hmakes.feeds k, hmakes.log, fedTo_append, List.append_assoc]
  results := hmakes.log ▸ gains_append h.results hmakes.results

/-- What one move keeps, all of them keep. -/
theorem Reached.run {moves : List Move} (h : x.Reached n given) (hrun : x.run moves = some x') :
    x'.Reached n given := by
  induction moves generalizing x with
  | nil =>
    cases hrun
    exact h
  | cons move rest ih =>
    rw [Execution.run, List.foldlM_cons] at hrun
    obtain ⟨y, hmove, hrest⟩ := Option.bind_eq_some_iff.1 hrun
    obtain ⟨events, hmakes⟩ := makes_of_move? hmove
    exact ih (h.makes hmakes) hrest

end Execution

end SeriesPipeline
