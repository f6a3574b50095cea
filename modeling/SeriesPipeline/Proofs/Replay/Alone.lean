import SeriesPipeline.Proofs.Replay.Advance
import SeriesPipeline.Proofs.Task.Traffic

/-!
# Clients alone

A call, a report or a replay that is made at once, with the task settled after each message, is one
way for a client to go on when nobody else moves.
-/

namespace SeriesPipeline

/-! ## Aborting one by one -/

namespace Process

variable {p : Process} {cause : Failure}

theorem abort_abort (p : Process) : p.abort.abort = p.abort := by
  rw [abort, if_pos (Execution.hasExited_abort p)]

theorem hasExited_of_exitFailure? (h : p.exitFailure? = some cause) : p.hasExited = true := by
  rw [exitFailure?] at h
  split at h
  · rename_i hphase
    rw [hasExited, hphase]
    exact (Option.ite_none_right_eq_some.1 h).1
  · cases h

end Process

namespace Network

variable {n : Network}

/-- A process that has exited with a failure stays as it is. -/
theorem isDoomed_abortAt (h : n.isDoomed = true) (k : Nat) : (n.abortAt k).isDoomed = true := by
  obtain ⟨p, hp, hfatal⟩ := List.any_eq_true.1 h
  obtain ⟨i, hi⟩ := List.mem_iff_getElem?.1 hp
  obtain ⟨cause, hcause, -⟩ := (Option.any_eq_true _ _).1 hfatal
  have hsame : (n.abortAt k).processes[i]? = some p := by
    rw [getElem?_abortAt, hi, Option.map_some, Process.abort,
      if_pos (Process.hasExited_of_exitFailure? hcause), ite_self]
  exact List.any_eq_true.2 ⟨p, List.mem_of_getElem? hsame, hfatal⟩

theorem foldl_abortAt (n : Network) (ks : List Nat) : ks.foldl abortAt n =
    { n with processes := n.processes.mapIdx fun i p => if i ∈ ks then p.abort else p } := by
  induction ks generalizing n with
  | nil =>
    refine congrArg (Network.mk n.capacity · n.results) (List.ext_getElem? fun i => ?_)
    simp
  | cons k ks ih =>
    rw [List.foldl_cons, ih]
    refine congrArg (Network.mk n.capacity · n.results) (List.ext_getElem? fun i => ?_)
    rw [List.getElem?_mapIdx, List.getElem?_mapIdx, getElem?_abortAt, Option.map_map]
    refine congrArg (n.processes[i]?.map ·) (funext fun p => ?_)
    by_cases hk : i = k <;> by_cases hks : i ∈ ks <;>
      simp [hk, hks, Process.abort_abort, Ne.symm]

theorem foldl_abortAt_range (n : Network) :
    (List.range n.processes.length).foldl abortAt n = n.abort := by
  rw [foldl_abortAt]
  refine congrArg (Network.mk n.capacity · n.results) (List.ext_getElem (by simp) fun i hi _ => ?_)
  rw [List.length_mapIdx] at hi
  rw [List.getElem_mapIdx, List.getElem_map, if_pos (List.mem_range.2 hi)]

end Network

/-! ## Settling -/

namespace PipelineTask

variable {now : Instant} {t : PipelineTask}

theorem foldlM_step {ks : List Nat} {network : Network}
    (h : ks.foldlM (Network.step? now) t.network = some network) :
    (ks.map Move.step).foldlM (move? now) t = some { t with network } := by
  induction ks generalizing t with
  | nil =>
    cases h
    rfl
  | cons k ks ih =>
    rw [List.foldlM_cons] at h
    obtain ⟨n, hstep, hrest⟩ := Option.bind_eq_some_iff.1 h
    rw [List.map_cons, List.foldlM_cons, move?, hstep]
    exact ih (t := { t with network := n }) hrest

theorem foldlM_abort (hcalled : t.abortRequested = true ∨ t.network.isDoomed = true)
    (ks : List Nat) : (ks.map Move.abort).foldlM (move? now) t =
      some { t with network := ks.foldl Network.abortAt t.network } := by
  induction ks generalizing t with
  | nil => rfl
  | cons k ks ih =>
    rw [List.map_cons, List.foldlM_cons, move?, if_pos (Bool.or_eq_true_iff.2 hcalled)]
    exact ih (t := { t with network := t.network.abortAt k })
      (hcalled.imp_right (Network.isDoomed_abortAt · k))

theorem exists_moves_abort (now : Instant) (t : PipelineTask) :
    ∃ moves : List Move, moves.foldlM (move? now) t = some t.superviseAbort := by
  rw [superviseAbort]
  split
  · rename_i hcalled
    refine ⟨_, (foldlM_abort (Bool.or_eq_true_iff.1 hcalled)
      (List.range t.network.processes.length)).trans ?_⟩
    rw [Network.foldl_abortAt_range]
  · exact ⟨[], rfl⟩

theorem exists_moves_end (now : Instant) (t : PipelineTask) :
    ∃ moves : List Move, moves.foldlM (move? now) t = some t.superviseEnd := by
  by_cases hexited : t.network.hasExited = true
  · obtain ⟨shut, hshut, hfinish⟩ := superviseEnd_eq now hexited
    refine ⟨[.shut, .finish], ?_⟩
    rw [List.foldlM_cons, hshut]
    exact (bind_pure _).trans hfinish
  · exact ⟨[], by rw [superviseEnd, if_neg hexited]; rfl⟩

/-- A task settles by moves of its own. -/
theorem exists_moves_settle (now : Instant) (t : PipelineTask) :
    ∃ moves : List Move, moves.foldlM (move? now) t = some (t.settle now) := by
  obtain ⟨ks, hks⟩ := (Network.settle_eq now t.network).1
  obtain ⟨aborts, haborts⟩ :=
    exists_moves_abort now { t with network := t.network.settle now }
  obtain ⟨ends, hends⟩ := exists_moves_end now
    ({ t with network := t.network.settle now } : PipelineTask).superviseAbort
  refine ⟨ks.map .step ++ (aborts ++ ends), ?_⟩
  rw [List.foldlM_append, foldlM_step hks]
  refine (List.foldlM_append ..).trans ?_
  rw [haborts]
  exact hends

end PipelineTask

namespace Traffic

/-- Some moves lead to a traffic with a property. -/
def Leads (x : Traffic) (P : Traffic → Prop) : Prop := ∃ moves y, x.run moves = some y ∧ P y

/-- Where the clock, the task and one client stand. -/
structure Shows (clock : Clock) (t : PipelineTask) (i : Nat) (client : Client) (x : Traffic) :
    Prop where
  clock : x.clock = clock
  task : x.task = t
  client : x.clients[i]? = some client

variable {x y : Traffic} {P Q : Traffic → Prop} {clock clock' : Clock} {t t' : PipelineTask}
  {i : Nat} {client next : Client}

theorem Leads.refl (h : P x) : x.Leads P := ⟨[], x, rfl, h⟩

theorem Leads.bind (h : x.Leads P) (hnext : ∀ y, P y → y.Leads Q) : x.Leads Q := by
  obtain ⟨moves, y, hrun, hy⟩ := h
  obtain ⟨later, z, hlater, hz⟩ := hnext y hy
  refine ⟨moves ++ later, z, ?_, hz⟩
  have hfirst : moves.foldlM move? x = some y := hrun
  rw [run, List.foldlM_append, hfirst]
  exact hlater

theorem Leads.of_move? (move : Move) (hmove : x.move? move = some y) (hy : P y) : x.Leads P := by
  refine ⟨[move], y, ?_, hy⟩
  rw [run, List.foldlM_cons, hmove]
  rfl

namespace Shows

theorem set (h : x.Shows clock t i client) (next : Client) :
    (x.clients.set i next)[i]? = some next :=
  List.getElem?_set_self (List.getElem?_eq_some_iff.1 h.client).1

theorem leads_task (h : x.Shows clock t i client) (moves : List PipelineTask.Move)
    (hmoves : moves.foldlM (PipelineTask.move? clock.now) t = some t') :
    x.Leads (Shows clock t' i client) := by
  induction moves generalizing x t with
  | nil =>
    cases hmoves
    exact .refl h
  | cons move rest ih =>
    rw [List.foldlM_cons] at hmoves
    obtain ⟨t'', hmove, hrest⟩ := Option.bind_eq_some_iff.1 hmoves
    have hmove' : x.move? (.task move) =
        some { x with task := t'', log := x.log ++ x.eventsOf move } := by
      rw [move?, h.clock, h.task, hmove]
      rfl
    exact (Leads.of_move? (P := Shows clock t'' i client) (.task move) hmove' ⟨h.clock, rfl, h.client⟩).bind
      fun y hy => ih hy hrest

theorem leads_settle (h : x.Shows clock t i client) :
    x.Leads (Shows clock (t.settle clock.now) i client) := by
  obtain ⟨moves, hmoves⟩ := t.exists_moves_settle clock.now
  exact h.leads_task moves hmoves

/-- The client does what it intends. -/
theorem leads_act (h : x.Shows clock t i client)
    (hact : x.act? i (client.intent clock t) = some y) (hy : P y) : x.Leads P := by
  refine Leads.of_move? (.client i) ?_ hy
  rw [move?, h.client, h.clock, h.task]
  exact hact

theorem leads_turn (h : x.Shows clock t i client)
    (hintent : client.intent clock t = .turn clock' next) :
    x.Leads (Shows clock' t i next) :=
  h.leads_act (y := { x with clock := clock', clients := x.clients.set i next })
    (by rw [hintent]; rfl) ⟨rfl, h.task, h.set next⟩

/-- A message that is taken. -/
theorem leads_sent (h : x.Shows clock t i client) {s : Send} {rejected : Client}
    (hintent : client.intent clock t = .send s next rejected) (hoffer : t.offer s = .taken t') :
    x.Leads (Shows clock t' i next) := by
  refine h.leads_act (y := { x with
    task := t', clients := x.clients.set i next
    given := x.given ++ [(i, s)], log := x.log ++ [.fed s.1 s.2] }) ?_ ⟨h.clock, rfl, h.set next⟩
  rw [hintent, act?, h.task, hoffer]

/-- A message that nobody is there to take. -/
theorem leads_missed (h : x.Shows clock t i client) {s : Send} {rejected : Client}
    (hintent : client.intent clock t = .send s next rejected) (hoffer : t.offer s = .gone) :
    x.Leads (Shows clock t i (if s.2.isClose then next else rejected)) := by
  refine h.leads_act (y := { x with
    clients := x.clients.set i (if s.2.isClose then next else rejected)
    given := x.given ++ [(i, s)], log := x.log ++ [.fed s.1 s.2] }) ?_ ⟨h.clock, h.task, h.set _⟩
  rw [hintent, act?, h.task, hoffer]

theorem leads_begun (h : x.Shows clock t i client) {c : Call} {begun : List Send → Client}
    {refused : Client} {sends : List Send} (hintent : client.intent clock t = .begin c begun refused)
    (hbegin : t.begin? c = some (t', sends)) : x.Leads (Shows clock t' i (begun sends)) := by
  refine h.leads_act (y := { x with
    task := t', clients := x.clients.set i (begun sends), begun := x.begun ++ [(i, c)] }) ?_
    ⟨h.clock, rfl, h.set _⟩
  rw [hintent, act?, h.task, hbegin]

theorem leads_refused (h : x.Shows clock t i client) {c : Call} {begun : List Send → Client}
    {refused : Client} (hintent : client.intent clock t = .begin c begun refused)
    (hbegin : t.begin? c = none) : x.Leads (Shows clock t i refused) := by
  refine h.leads_act (y := { x with clients := x.clients.set i refused }) ?_
    ⟨h.clock, h.task, h.set _⟩
  rw [hintent, act?, h.task, hbegin]

theorem leads_recorded (h : x.Shows clock t i client) {cause : Failure}
    (hintent : client.intent clock t = .record cause next) :
    x.Leads (Shows clock (t.record cause) i next) := by
  refine h.leads_act (y := { x with
    task := t.record cause, clients := x.clients.set i next }) ?_ ⟨h.clock, rfl, h.set next⟩
  rw [hintent, act?, h.task]

theorem leads_requested (h : x.Shows clock t i client)
    (hintent : client.intent clock t = .requestAbort next) :
    x.Leads (Shows clock t.requestAbort i next) := by
  refine h.leads_act (y := { x with
    task := t.requestAbort, clients := x.clients.set i next }) ?_ ⟨h.clock, rfl, h.set next⟩
  rw [hintent, act?, h.task]

/-- A failure is recorded before the abort is asked for. -/
theorem leads_failed (h : x.Shows clock t i client) {cause : Failure} {last : Client}
    (hintent : client.intent clock t = .record cause next)
    (hnext : next.intent clock (t.record cause) = .requestAbort last) :
    x.Leads (Shows clock (t.fail cause) i last) := by
  rw [PipelineTask.fail_eq]
  exact (h.leads_recorded hintent).bind fun y hy => hy.leads_requested hnext

end Shows

end Traffic

/-! ## Calls and reports -/

/-- How far a call has come when its messages have come so far. -/
def CallPhase.after : Delivery → CallPhase
  | .done => .returned
  | .rejected => .rejected
  | .waiting sends => .sending sends

namespace Traffic.Shows

variable {x : Traffic} {clock : Clock} {t : PipelineTask} {i : Nat} {c : Call} {sends : List Send}

theorem leads_deliver (h : x.Shows clock t i (.call c (.sending sends))) :
    x.Leads (Shows clock (t.deliver clock.now sends).1 i
      (.call c (.after (t.deliver clock.now sends).2))) := by
  induction sends generalizing x t with
  | nil => exact h.leads_turn rfl
  | cons s rest ih =>
    rw [PipelineTask.deliver]
    cases hoffer : t.offer s with
    | taken t' =>
      exact (h.leads_sent rfl hoffer).bind fun y hy => hy.leads_settle.bind fun z hz => ih hz
    | full => exact .refl h
    | gone =>
      have hmissed := h.leads_missed rfl hoffer
      dsimp only
      split at hmissed
      · rename_i hclose
        rw [if_pos hclose]
        exact hmissed.bind fun y hy => ih hy
      · rename_i hclose
        rw [if_neg hclose]
        exact hmissed

/-- A call that is made at once. -/
theorem leads_call (h : x.Shows clock t i (.call c .fresh)) :
    x.Leads (Shows clock (t.call clock.now c).1 i (.call c (.after (t.call clock.now c).2))) := by
  rw [PipelineTask.call]
  cases hbegin : t.begin? c with
  | none => exact h.leads_refused rfl hbegin
  | some begun => exact (h.leads_begun rfl hbegin).bind fun y hy => hy.leads_deliver

/-- A failure that is reported at once. -/
theorem leads_report {cause : Failure} (h : x.Shows clock t i (.report cause .recording)) :
    x.Leads (Shows clock (t.fail cause) i (.report cause .done)) :=
  h.leads_failed rfl rfl

end Traffic.Shows

/-! ## Replays -/

namespace Replay

variable {clock : Clock} {name : String} {r : Replay}

theorem intent_of_sends {s : Send} {sends : List Send} (hsends : r.sends = s :: sends) :
    r.intent clock name = .send s (.replay (.feeding { r with sends }))
      (.replay (.ended (.error (.inputClosed name)))) := by
  rw [intent, hsends]

theorem intent_of_calls {c : Call} {calls : List Call} (hsends : r.sends = [])
    (hcalls : r.calls = c :: calls) : r.intent clock name =
      .begin c (fun sends => .replay (.feeding { r with calls, sends }))
        (.replay (.ended (.error (.inputClosed name)))) := by
  rw [intent, hsends, hcalls]

theorem intent_of_next (hsends : r.sends = []) (hcalls : r.calls = []) :
    r.intent clock name = match r.next clock with
      | .finished => .turn clock (.replay (.ended (.ok ())))
      | .waiting => .rest
      | .outOfOrder cause => .turn clock (.replay (.ended (.error cause)))
      | .ready clock r => .turn clock (.replay (.feeding r)) := by
  unfold intent
  split
  · rename_i heq
    cases hsends.symm.trans heq
  · rename_i heq
    cases hcalls.symm.trans heq
  · rfl

end Replay

/-- The replay of a drive. -/
def Drive.client (d : Drive) : Client :=
  match d.outcome with
  | none => .replay (.feeding d.replay)
  | some outcome => .replay (.ended outcome)

namespace Traffic.Shows

variable {x : Traffic} {i : Nat} {d d' : Drive}

theorem leads_goesOn (h : x.Shows d.clock d.task i (.replay (.feeding d.replay)))
    (hnone : d.outcome = none) (hgoes : d.GoesOn d') :
    x.Leads (Shows d'.clock d'.task i d'.client) := by
  cases hgoes with
  | sends hsends hoffer =>
    rw [Drive.client, hnone]
    exact h.leads_sent (Replay.intent_of_sends hsends) (congrArg (Offer.map _) hoffer)
  | misses hsends hoffer hclose =>
    rw [Drive.client, hnone]
    have hmissed := h.leads_missed (Replay.intent_of_sends hsends) (congrArg (Offer.map _) hoffer)
    rwa [hclose] at hmissed
  | rejected hsends hoffer hclose =>
    have hmissed := h.leads_missed (Replay.intent_of_sends hsends) (congrArg (Offer.map _) hoffer)
    rwa [if_neg (fun h => hclose (Message.isClose_iff.1 h))] at hmissed
  | begins hsends hcalls hbegin =>
    rw [Drive.client, hnone]
    exact h.leads_begun (Replay.intent_of_calls hsends hcalls) hbegin
  | refused hsends hcalls hbegin =>
    exact h.leads_refused (Replay.intent_of_calls hsends hcalls) hbegin
  | turns hsends hcalls hnext =>
    rw [Drive.client, hnone]
    exact h.leads_turn ((Replay.intent_of_next hsends hcalls).trans (by rw [hnext]))
  | finished hsends hcalls hnext =>
    exact h.leads_turn ((Replay.intent_of_next hsends hcalls).trans (by rw [hnext]; rfl))
  | outOfOrder hsends hcalls hnext =>
    exact h.leads_turn ((Replay.intent_of_next hsends hcalls).trans (by rw [hnext]; rfl))

/-- Whatever a drive does, its replay may do as a client. -/
theorem leads_drive {move : Drive.Move} (h : x.Shows d.clock d.task i d.client)
    (hmove : d.move? move = some d') : x.Leads (Shows d'.clock d'.task i d'.client) := by
  cases move with
  | replay =>
    obtain ⟨hnone, hgoes⟩ := Drive.goesOn_of_goOn? hmove
    rw [Drive.client, hnone] at h
    exact h.leads_goesOn hnone hgoes
  | step k =>
    obtain ⟨q, -, hmove⟩ := Option.bind_eq_some_iff.1 hmove
    obtain ⟨network, hstep, hmove⟩ := Option.bind_eq_some_iff.1 hmove
    cases hmove
    refine h.leads_task [.step k] ?_
    rw [List.foldlM_cons, PipelineTask.move?, hstep]
    rfl
  | abort =>
    cases hmove
    obtain ⟨moves, hmoves⟩ := d.task.exists_moves_abort d.clock.now
    exact h.leads_task moves hmoves
  | finish =>
    cases hmove
    obtain ⟨moves, hmoves⟩ := d.task.exists_moves_end d.clock.now
    exact h.leads_task moves hmoves
  | set t =>
    cases hmove
    refine Leads.of_move? (.set t) rfl ⟨?_, h.task, h.client⟩
    rw [h.clock]

theorem leads_reaches (h : x.Shows d.clock d.task i d.client) (hreaches : d.Reaches d') :
    x.Leads (Shows d'.clock d'.task i d'.client) := by
  obtain ⟨moves, -, hrun⟩ := hreaches
  induction moves generalizing x d with
  | nil =>
    cases hrun
    exact .refl h
  | cons move rest ih =>
    rw [Drive.run, List.foldlM_cons] at hrun
    obtain ⟨e, hmove, hrest⟩ := Option.bind_eq_some_iff.1 hrun
    exact (h.leads_drive hmove).bind fun y hy => ih hy hrest

end Traffic.Shows

/-- What a replay has come to, as a client. -/
def Replay.State.client : State → Client
  | .pending r => .replay (.feeding r)
  | .ended outcome => .replay (.reported outcome)

namespace Traffic.Shows

variable {x : Traffic} {clock : Clock} {t : PipelineTask} {i : Nat} {r : Replay}

/-- The end of a replay. -/
theorem leads_conclude {outcome : Except Failure Unit}
    (h : x.Shows clock t i (.replay (.ended outcome))) :
    x.Leads (Shows clock (Replay.conclude t outcome).1 i
      (.replay (.reported (Replay.conclude t outcome).2))) := by
  cases outcome with
  | ok => exact h.leads_turn rfl
  | error cause =>
    have hintent := Client.intent_ended clock t (.error cause)
    unfold Replay.closing at hintent
    unfold Replay.conclude
    dsimp only at hintent ⊢
    split
    · rename_i name first hfailure
      rw [hfailure] at hintent
      exact h.leads_turn hintent
    · rename_i cause _ _ hother
      have hfailing : (Client.replay (.ended (.error cause))).intent clock t =
          .turn clock (.replay (.failing cause)) := by
        refine hintent.trans ?_
        split
        · rename_i name first hfailure
          exact absurd hfailure (hother name first rfl)
        · rfl
      exact (h.leads_turn hfailing).bind fun y hy => hy.leads_failed rfl rfl

/-- A replay that goes on at once as far as it gets. -/
theorem leads_proceed (hready : t.IsReady) (h : x.Shows clock t i (.replay (.feeding r))) :
    x.Leads (Shows (r.proceed clock t).1 (r.proceed clock t).2.1 i
      (r.proceed clock t).2.2.client) := by
  obtain ⟨⟨clock', t', state⟩, d, hadvance, hreaches, hshows, -⟩ :=
    Drive.reaches_advance (d := .start clock t r) rfl hready
  have hleads := leads_reaches (d := .start clock t r) h hreaches
  have hadvance' : r.advance clock t = (clock', t', state) := hadvance
  rw [Replay.proceed, hadvance']
  cases state with
  | pending r' =>
    obtain ⟨rfl, rfl, hnone, rfl⟩ := hshows
    rwa [Drive.client, hnone] at hleads
  | ended outcome =>
    obtain ⟨rfl, rfl, houtcome⟩ := hshows
    rw [Drive.client, houtcome] at hleads
    exact hleads.bind fun y hy => hy.leads_conclude

end Traffic.Shows

end SeriesPipeline
