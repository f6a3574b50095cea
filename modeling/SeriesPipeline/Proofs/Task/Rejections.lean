import SeriesPipeline.Proofs.Task.Clients
import SeriesPipeline.Proofs.Plan.Progress
import SeriesPipeline.Proofs.Replay.Sequence

/-!
# Rejected sends

A send is rejected when the input is closed or a source is gone. As long as nobody has begun to close
the input, either comes of a failure, and that failure has been recorded before.
-/

namespace SeriesPipeline

/-- A stage ends by itself on a close. -/
theorem Stage.message_of_finished {s : Stage} {now : Instant} {e : Envelope}
    (h : (s.receive now e).2.2 = .finished) : e.message = .close := by
  unfold receive at h
  split at h
  · cases h
  · split at h
    · split at h
      · unfold takeBatch at h
        dsimp only at h
        split at h <;> cases h
      · cases h
      · assumption
    · cases h

/-- Whether a process has left without a failure. -/
def Phase.isDone : Phase → Bool
  | .leaving failure | .closed failure => failure.isNone
  | _ => false

theorem Phase.isBroken_or_isDone {phase : Phase} (h : phase.isOpen = false) :
    phase.isBroken = true ∨ phase.isDone = true := by
  cases phase with
  | closed failure => cases failure <;> simp [isBroken, isDone]
  | aborted => exact .inl rfl
  | _ => cases h

theorem Process.isOpen_of_hasExited {p : Process} (h : p.hasExited = true) :
    p.phase.isOpen = false := by
  unfold hasExited at h
  cases hphase : p.phase with
  | closed failure => rfl
  | aborted => rfl
  | _ =>
    rw [hphase] at h
    cases h

/-- A compiled plan has a source. -/
theorem Plan.inlets_ne_nil {b : Blueprint} {settings : Settings} {p : Plan}
    (h : ofBlueprint b settings = .ok p) : p.inlets ≠ [] := by
  obtain ⟨nodes, producers, hperm, hlaid⟩ := exists_laidOut h
  obtain ⟨order, hcheck, -, -⟩ := of_ofBlueprint_eq_ok h
  obtain ⟨n, hn⟩ := List.exists_mem_of_ne_nil _ (Blueprint.check_eq_ok_iff.1 hcheck).nodes
  obtain ⟨number, inputs, hstage, -, -⟩ := hlaid.wired n (hperm.mem_iff.2 hn)
  -- the first stage has none before it to read from
  obtain ⟨s, hs⟩ : ∃ s, p.stages[0]? = some s :=
    ⟨_, List.getElem?_eq_getElem (Nat.zero_lt_of_lt (List.getElem?_eq_some_iff.1 hstage).1)⟩
  obtain ⟨source, hsource⟩ | hinputs := inputs_ne_nil h (List.mem_of_getElem? hs)
  · exact List.ne_nil_of_mem (mem_inlets_of_source hs hsource)
  · obtain ⟨input, hinput⟩ := List.exists_mem_of_ne_nil _ hinputs
    exact absurd (hlaid.before 0 s hs input hinput) (Nat.not_lt_zero input)

namespace Network

variable {now : Instant} {n n' : Network} {i : Nat} {closes closes' : Prop}

/-- The processes with those numbers leave without a failure only after a close. -/
def Awaits (numbers : List Nat) (closes : Prop) (n : Network) : Prop :=
  ∀ (k : Nat) (p : Process), n.processes[k]? = some p → k ∈ numbers → p.phase.isDone = true → closes

variable {numbers : List Nat}

theorem Awaits.mono (h : n.Awaits numbers closes) (hcloses : closes → closes') :
    n.Awaits numbers closes' :=
  fun k p hp hk hdone => hcloses (h k p hp hk hdone)

theorem Awaits.steps (h : n.Awaits numbers closes)
    (hinbox : ∀ (k : Nat) (p : Process), n.processes[k]? = some p → k ∈ numbers →
      p.phase.isOpen = true → ∀ e ∈ p.inbox, e.message = .close → closes)
    (hsteps : n.Steps now i n') : n'.Awaits numbers closes := by
  cases hsteps with
  | @takes p e inbox hp _ hphase hin =>
    refine forall_set h fun hk hdone => ?_
    have hopen : p.phase.isOpen = true := by rw [hphase]; rfl
    refine hinbox i p hp hk hopen e (hin ▸ List.mem_cons_self) ?_
    dsimp only at hdone
    cases hprogress : (p.stage.receive now e).2.2 with
    | finished => exact Stage.message_of_finished hprogress
    | _ =>
      rw [hprogress] at hdone
      cases hdone
  | records => exact forall_set h nofun
  | @leaves p _ hp _ hphase => exact forall_set h fun hk hdone => h i p hp hk (hphase ▸ hdone)
  | @sends p q _ _ _ hp _ hq => exact forall_set (forall_set h (h i p hp)) (h _ q hq)
  | @misses p _ _ _ hp => exact forall_set h (h i p hp)

theorem Awaits.abortAt (h : n.Awaits numbers closes) (k : Nat) :
    (n.abortAt k).Awaits numbers closes := by
  intro i p hp hi hdone
  rw [getElem?_abortAt] at hp
  obtain ⟨q, hq, rfl⟩ := Option.map_eq_some_iff.1 hp
  refine h i q hq hi ?_
  split at hdone
  · unfold Process.abort at hdone
    split at hdone
    · exact hdone
    · cases hdone
  · exact hdone

end Network

namespace Traffic

variable {b : Blueprint} {settings : Settings} {p : Plan} {x x' y : Traffic} {i : Nat} {move : Move}

/-- Whatever is shut, aborted or gone has a close or a recorded failure behind it. -/
structure Blames (p : Plan) (x : Traffic) : Prop where
  informed : x.Informed p
  inlets : x.task.inlets = none → x.Closes ∨ x.task.failure.isSome
  abort : x.task.abortRequested = true → x.task.failure.isSome
  network : x.task.network.Blames
  sources : x.task.network.Awaits (p.inlets.map (·.process)) x.Closes

theorem blames_start {clients : List Client} (hnew : ∀ client ∈ clients, client.IsNew)
    (clock : Clock) (p : Plan) : (start clock p clients).Blames p := by
  have hrunning (k : Nat) (q : Process) (hq : p.network.processes[k]? = some q) :
      q.phase = .running :=
    (p.isNew_of_mem_network q (List.mem_of_getElem? hq)).phase
  refine ⟨informed_start hnew clock p, nofun, nofun, fun k q hq hbroken => ?_,
    fun k q hq _ hdone => ?_⟩
  · rw [hrunning k q hq] at hbroken
    cases hbroken
  · rw [hrunning k q hq] at hdone
    cases hdone

/-- A close that stands in the inbox of a source was begun by somebody. -/
theorem Informed.closes_of_mem_inbox (hx : x.Informed p) (h : Plan.ofBlueprint b settings = .ok p)
    {k : Nat} {q : Process} (hq : x.task.network.processes[k]? = some q)
    (hk : k ∈ p.inlets.map (·.process)) (hopen : q.phase.isOpen = true) {e : Envelope}
    (he : e ∈ q.inbox) (hclose : e.message = .close) : x.Closes := by
  obtain ⟨s, n, hs, hkind⟩ := Plan.exists_source_of_mem_inlets hk
  have hinputs := (Plan.inputs_of_mem_stages h (List.mem_of_getElem? hs)).1 n hkind
  obtain ⟨q', hq', hfollows⟩ := Execution.Reached.follows hx.grows hs
  cases hq.symm.trans hq'
  have harrived : e ∈ arrivals (historyOf k x.log) :=
    hfollows.inbox hopen ▸ List.mem_append_right _ he
  have hfed := (Execution.Reached.arrivals_of_source hx.grows hs hinputs).subset harrived
  obtain ⟨m, hm, rfl⟩ := List.mem_map.1 hfed
  exact (hx.fed k m hm).2 hclose

/-- A source that is gone has closed on a close or with a failure, or was aborted. -/
theorem Blames.of_gone (hx : x.Blames p) {inlet : Inlet} (hinlet : inlet ∈ p.inlets) {q : Process}
    (hq : x.task.network.processes[inlet.process]? = some q) (hclosed : q.phase.isOpen = false) :
    x.Closes ∨ x.task.failure.isSome := by
  rcases Phase.isBroken_or_isDone hclosed with hbroken | hdone
  · exact .inr (hx.network _ q hq hbroken)
  · exact .inl (hx.sources _ q hq (List.mem_map_of_mem hinlet) hdone)

theorem Blames.of_isShut (hx : x.Blames p) (h : x.task.IsShut) :
    x.Closes ∨ x.task.failure.isSome := by
  obtain hnone | ⟨inlet, hinlet, q, hq, hclosed⟩ := h
  · exact hx.inlets hnone
  · exact hx.of_gone (hx.informed.plan ▸ hinlet) hq hclosed

theorem Blames.acts (hx : x.Blames p) {client : Client} (hclient : client ∈ x.clients)
    (hacts : x.Acts i (client.intent x.clock x.task) x') : x'.Blames p := by
  have hinformed := hx.informed.acts hclient hacts
  have hkeeps : (client.intent x.clock x.task).Keeps x.task x.Closes :=
    (hx.informed.clients client hclient).keeps_intent hx.informed.attached
  generalize client.intent x.clock x.task = intent at hacts hkeeps
  cases hacts with
  | sends hoffer =>
    obtain ⟨q, hq, -, rfl⟩ := Network.exists_set_of_offer hoffer
    exact ⟨hinformed, hx.inlets, hx.abort, Network.forall_set hx.network (hx.network _ q hq),
      Network.forall_set hx.sources (hx.sources _ q hq)⟩
  | misses => exact ⟨hinformed, hx.inlets, hx.abort, hx.network, hx.sources⟩
  | rejected => exact ⟨hinformed, hx.inlets, hx.abort, hx.network, hx.sources⟩
  | @begins c _ _ _ _ hbegin =>
    have hcloses : x.Closes → Closes { x with begun := x.begun ++ [(i, c)] } :=
      fun hcloses => hcloses.of_append rfl
    obtain rfl | ⟨rfl, rfl⟩ := PipelineTask.eq_of_begin? hbegin
    · exact ⟨hinformed, fun hnone => (hx.inlets hnone).imp_left hcloses, hx.abort, hx.network,
        hx.sources.mono hcloses⟩
    · exact ⟨hinformed, fun _ => .inl ⟨i, List.mem_append_right _ (List.mem_singleton_self _)⟩,
        hx.abort, hx.network, hx.sources.mono hcloses⟩
  | refused => exact ⟨hinformed, hx.inlets, hx.abort, hx.network, hx.sources⟩
  | turns => exact ⟨hinformed, hx.inlets, hx.abort, hx.network, hx.sources⟩
  | records cause =>
    have hsome := x.task.isSome_failure_record cause
    exact ⟨hinformed, fun _ => .inr hsome, fun _ => hsome, Network.blames_of_isSome hsome,
      hx.sources⟩
  | requests => exact ⟨hinformed, hx.inlets, fun _ => hkeeps.1, hx.network, hx.sources⟩

theorem Blames.moves (hx : x.Blames p) (h : Plan.ofBlueprint b settings = .ok p)
    (hmoves : x.Moves move x') : x'.Blames p := by
  have hinformed := hx.informed.moves hmoves
  cases hmoves with
  | acts hclient hacts => exact hx.acts (List.mem_of_getElem? hclient) hacts
  | moves hmoves =>
    cases hmoves with
    | steps hstep =>
      have hsteps := Network.steps_of_step? hstep
      have hlater := (PipelineTask.Moves.steps hstep).later
      refine ⟨hinformed, fun hnone => (hx.inlets hnone).imp_right hlater.isSome_failure,
        fun habort => hlater.isSome_failure (hx.abort habort), hx.network.steps hsteps,
        hx.sources.steps (fun k q hq hk hopen e => ?_) hsteps⟩
      exact hx.informed.closes_of_mem_inbox h hq hk hopen
    | aborts hcalled =>
      have hsome : x.task.failure.isSome := hcalled.elim hx.abort hx.network.isSome_of_isDoomed
      exact ⟨hinformed, hx.inlets, hx.abort, Network.blames_of_isSome hsome, hx.sources.abortAt _⟩
    | shuts hexited =>
      refine ⟨hinformed, fun _ => ?_, hx.abort, hx.network, hx.sources⟩
      obtain ⟨inlet, hinlet⟩ := List.exists_mem_of_ne_nil _ (Plan.inlets_ne_nil h)
      obtain ⟨q, hq⟩ := hx.informed.grows.exists_process hinlet
      exact hx.of_gone hinlet hq
        (Process.isOpen_of_hasExited (List.all_eq_true.1 hexited q (List.mem_of_getElem? hq)))
    | finishes => exact ⟨hinformed, hx.inlets, hx.abort, hx.network, hx.sources⟩
  | sets => exact ⟨hinformed, hx.inlets, hx.abort, hx.network, hx.sources⟩

theorem blames_of_run (h : Plan.ofBlueprint b settings = .ok p) {clients : List Client}
    (hnew : ∀ client ∈ clients, client.IsNew) {clock : Clock} {moves : List Move}
    (hrun : (start clock p clients).run moves = some x) : x.Blames p :=
  run_induction (fun _ _ _ hx => hx.moves h) (blames_start hnew clock p) hrun

/-! ## Replays that were stopped -/

/-- A client changes only by what it does itself. -/
theorem Moves.client_eq (h : x.Moves move x') (j : Nat) : x'.clients[j]? = x.clients[j]? ∨
    ∃ client, x.clients[j]? = some client ∧ x.Acts j (client.intent x.clock x.task) x' := by
  cases h with
  | @acts i client _ hclient hacts =>
    by_cases hj : i = j
    · subst hj
      exact .inr ⟨client, hclient, hacts⟩
    · left
      generalize client.intent x.clock x.task = intent at hacts
      cases hacts <;> exact List.getElem?_set_ne hj
  | moves => exact .inl rfl
  | sets => exact .inl rfl

/-- A replay that was stopped is about to put it down to the failure of the task, or has done so. -/
structure PutsDown (i : Nat) (name : String) (first : Failure) (x : Traffic) : Prop where
  failure : x.task.failure = some first
  client : x.clients[i]? = some (.replay (.ended (.error (.inputClosed name)))) ∨
    x.clients[i]? = some (.replay (.reported (.error (.task name first))))

theorem PutsDown.moves {name : String} {first : Failure} (h : x.PutsDown i name first)
    (hmoves : x.Moves move x') : x'.PutsDown i name first := by
  refine ⟨hmoves.later.failure first h.failure, ?_⟩
  obtain hsame | ⟨client, hclient, hacts⟩ := hmoves.client_eq i
  · rw [hsame]
    exact h.client
  · have hlt := (List.getElem?_eq_some_iff.1 hclient).1
    rcases h.client with hended | hreported
    · cases hclient.symm.trans hended
      rw [Client.intent_ended, Replay.closing_of_failure h.failure] at hacts
      cases hacts
      exact .inr (List.getElem?_set_self hlt)
    · cases hclient.symm.trans hreported
      cases hacts

/-- As long as nobody has begun to close the input, a rejected call finds a recorded failure, and so
does a replay that was stopped: it puts its end down to that failure and records none of its own.
The first failure is never replaced. -/
theorem failure_of_rejected (h : Plan.ofBlueprint b settings = .ok p) {clients : List Client}
    (hnew : ∀ client ∈ clients, client.IsNew) {clock : Clock} {moves : List Move}
    (hrun : (start clock p clients).run moves = some x) :
    (∀ first later y, x.task.failure = some first → x.run later = some y →
        y.task.failure = some first) ∧
      (¬x.Closes →
        (∀ c, .call c .rejected ∈ x.clients → x.task.failure.isSome) ∧
        ∀ (i : Nat) (name : String),
          x.clients[i]? = some (.replay (.ended (.error (.inputClosed name)))) →
          ∃ first, x.task.failure = some first ∧
            Replay.conclude x.task (.error (.inputClosed name)) =
              (x.task, .error (.task p.name first)) ∧
            ∀ later y, x.run later = some y → y.task.failure = some first ∧
              (y.clients[i]? = x.clients[i]? ∨
                y.clients[i]? = some (.replay (.reported (.error (.task p.name first)))))) := by
  have hx := blames_of_run h hnew hrun
  refine ⟨fun first later y hfirst hlater => (later_of_run hlater).failure first hfirst,
    fun hcloses => ⟨fun c hc => ?_, fun i name hi => ?_⟩⟩
  · cases hx.informed.clients _ hc with
    | rejected hshut => exact (hx.of_isShut hshut).resolve_left hcloses
  · cases hx.informed.clients _ (List.mem_of_getElem? hi) with
    | stopped hname hshut =>
      obtain ⟨first, hfirst⟩ :=
        Option.isSome_iff_exists.1 ((hx.of_isShut hshut).resolve_left hcloses)
      have hplan : name = p.name := hname.trans (congrArg Plan.name hx.informed.plan)
      subst hplan
      refine ⟨first, hfirst, ?_, fun later y hlater => ?_⟩
      · unfold Replay.conclude
        rw [hfirst]
      · have hy : y.PutsDown i p.name first :=
          run_induction (fun _ _ _ h => h.moves) ⟨hfirst, .inl hi⟩ hlater
        exact ⟨hy.failure, hy.client.imp_left fun hended => hended.trans hi.symm⟩
    | broken hcause => exact absurd rfl (hcause name)

end Traffic

/-- A source alone. -/
def onlySource : Blueprint := ⟨"p", [⟨"s", .source ⟨none, none, none, .empty, none⟩, []⟩]⟩

theorem ofBlueprint_onlySource : Plan.ofBlueprint onlySource .standard = .ok Replay.planOfSource := by
  with_unfolding_all rfl

/-- A batch with a row that has fewer values than there are columns. -/
def unevenBatch (name : String) (t : Instant) : Batch := ⟨name, ∅, ["v"], [⟨t, []⟩], none⟩

namespace Traffic

/-- The source fails on the first batch, and a barrier and a replay come too late. -/
theorem failure_of_rejected_uneven :
    let clients : List Client := [.call (.batch (unevenBatch "m" ⟨1⟩)) .fresh,
      .call (.barrier ⟨2⟩) .fresh, .replay (.feeding (.new .driven [unevenBatch "m" ⟨3⟩]))]
    let moves : List Move := List.replicate 3 (.client 0) ++ List.replicate 3 (.task (.step 0)) ++
      List.replicate 2 (.client 1) ++ List.replicate 3 (.client 2)
    ∃ x first, (start ⟨⟨0⟩⟩ Replay.planOfSource clients).run moves = some x ∧
      .call (.barrier ⟨2⟩) .rejected ∈ x.clients ∧
      x.clients[2]? = some (.replay (.ended (.error (.inputClosed "p")))) ∧
      x.task.failure = some first ∧
      Replay.conclude x.task (.error (.inputClosed "p")) = (x.task, .error (.task "p" first)) := by
  intro clients moves
  have hnew : ∀ client ∈ clients, client.IsNew := by
    simp only [clients, List.forall_mem_cons]
    exact ⟨.call _, .call _, .batches _ _, nofun⟩
  obtain ⟨x, hrun, hcall, hreplay, hbegun⟩ :
      ∃ x, (start ⟨⟨0⟩⟩ Replay.planOfSource clients).run moves = some x ∧
        x.clients[1]? = some (.call (.barrier ⟨2⟩) .rejected) ∧
        x.clients[2]? = some (.replay (.ended (.error (.inputClosed "p")))) ∧
        (x.begun.any fun c => c.2.message.isClose) = false := by
    with_unfolding_all exact ⟨_, rfl, rfl, rfl, rfl⟩
  have hcloses : ¬x.Closes := by
    rintro ⟨i, hi⟩
    exact absurd rfl (List.any_eq_false.1 hbegun (i, .close) hi)
  obtain ⟨first, hfirst, hconclude, -⟩ :=
    ((failure_of_rejected ofBlueprint_onlySource hnew hrun).2 hcloses).2 2 "p" hreplay
  exact ⟨x, first, hrun, List.mem_of_getElem? hcall, hreplay, hfirst, hconclude⟩

end Traffic

end SeriesPipeline
