import SeriesPipeline.Proofs.Task.Sources

/-!
# Acknowledged batches

A call that collects a batch returns once every source that accepts the batch has it in its inbox. It
goes by the inlets that were there when it began, so a close may come before it into an inbox. A
source takes what it was given in order and ends on the close: what comes after the close is never
taken, whether or not it was acknowledged.
-/

namespace SeriesPipeline

/-- The beginning of a list ends before an item of the list or has it. -/
theorem isPrefix_append_cons {α : Type} {l before after : List α} {a : α}
    (h : l <+: before ++ a :: after) :
    l <+: before ∨ ∃ rest, l = before ++ a :: rest ∧ rest <+: after := by
  have hsplit : before ++ [a] <+: before ++ a :: after :=
    ⟨after, by rw [List.append_assoc, List.singleton_append]⟩
  rcases List.prefix_or_prefix_of_prefix h hsplit with hle | ⟨rest, rfl⟩
  · rcases List.prefix_concat_iff.1 hle with rfl | hbefore
    · exact .inr ⟨[], rfl, List.nil_prefix⟩
    · exact .inl hbefore
  · rw [List.append_assoc, List.singleton_append] at h ⊢
    have hrest := (List.prefix_append_right_inj before).1 h
    exact .inr ⟨rest, rfl, (List.cons_prefix_cons.1 hrest).2⟩

/-! ## What clients give -/

section Given

variable (k i : Nat) (given later : List (Nat × Send))

/-- The messages given to process number `k`, with the numbers of the clients. -/
def givenTo : List (Nat × Message) := (given.filter (·.2.1 = k)).map fun g => (g.1, g.2.2)

/-- The messages that client number `i` gave to process number `k`. -/
def givenBy : List Message := ((givenTo k given).filter (·.1 = i)).map (·.2)

theorem givenTo_append : givenTo k (given ++ later) = givenTo k given ++ givenTo k later := by
  rw [givenTo, List.filter_append, List.map_append, givenTo, givenTo]

theorem givenBy_append : givenBy k i (given ++ later) = givenBy k i given ++ givenBy k i later := by
  rw [givenBy, givenTo_append, List.filter_append, List.map_append, givenBy, givenBy]

end Given

theorem givenTo_singleton (k i : Nat) (s : Send) :
    givenTo k [(i, s)] = if s.1 = k then [(i, s.2)] else [] := by
  by_cases hk : s.1 = k <;> simp [givenTo, hk]

theorem givenBy_singleton (k i j : Nat) (s : Send) :
    givenBy k i [(j, s)] = if j = i then sendsTo k [s] else [] := by
  rw [givenBy, givenTo_singleton]
  by_cases hk : s.1 = k <;> by_cases hj : j = i <;> simp [sendsTo, hk, hj]

/-- What client number `i` has given of its call, by how far the call has come. -/
def CallPhase.Gives (p : Plan) (c : Call) (i : Nat) (given : List (Nat × Send)) : CallPhase → Prop
  | .fresh => ∀ k, givenBy k i given = []
  | .sending sends => ∀ inlet ∈ p.inlets,
    givenBy inlet.process i given ++ sendsTo inlet.process sends = inlet.messages [c]
  | .returned => ∀ inlet ∈ p.inlets, givenBy inlet.process i given = inlet.messages [c]
  | .rejected => True

namespace Traffic

variable {p : Plan} {x x' : Traffic} {i k : Nat} {move : Move} {b : Batch}

/-- Client number `i` collects a batch. -/
def Collects (p : Plan) (b : Batch) (i : Nat) (x : Traffic) : Prop :=
  ∃ phase, x.clients[i]? = some (.call (.batch b) phase) ∧ phase.Gives p (.batch b) i x.given

theorem Collects.of_eq (h : x.Collects p b i) (hclient : x'.clients[i]? = x.clients[i]?)
    (hgiven : ∀ k, givenBy k i x'.given = givenBy k i x.given) : x'.Collects p b i := by
  obtain ⟨phase, hphase, hgives⟩ := h
  refine ⟨phase, hclient.trans hphase, ?_⟩
  cases phase with
  | fresh => exact fun k => (hgiven k).trans (hgives k)
  | sending sends => exact fun inlet hinlet => by rw [hgiven]; exact hgives inlet hinlet
  | returned => exact fun inlet hinlet => (hgiven _).trans (hgives inlet hinlet)
  | rejected => trivial

/-- Another client acts. -/
theorem Collects.of_ne (h : x.Collects p b i) {j : Nat} (hj : j ≠ i) {intent : Intent}
    (hacts : x.Acts j intent x') : x'.Collects p b i := by
  have hgave (s : Send) (k : Nat) : givenBy k i (x.given ++ [(j, s)]) = givenBy k i x.given := by
    rw [givenBy_append, givenBy_singleton, if_neg hj, List.append_nil]
  cases hacts with
  | sends => exact h.of_eq (List.getElem?_set_ne hj) (hgave _)
  | misses => exact h.of_eq (List.getElem?_set_ne hj) (hgave _)
  | rejected => exact h.of_eq (List.getElem?_set_ne hj) (hgave _)
  | begins => exact h.of_eq (List.getElem?_set_ne hj) fun _ => rfl
  | refused => exact h.of_eq (List.getElem?_set_ne hj) fun _ => rfl
  | turns => exact h.of_eq (List.getElem?_set_ne hj) fun _ => rfl
  | records => exact h.of_eq (List.getElem?_set_ne hj) fun _ => rfl
  | requests => exact h.of_eq (List.getElem?_set_ne hj) fun _ => rfl

/-- The client itself acts. -/
theorem Collects.acts (h : x.Collects p b i) (hinformed : x.Informed p) {client : Client}
    (hclient : x.clients[i]? = some client)
    (hacts : x.Acts i (client.intent x.clock x.task) x') : x'.Collects p b i := by
  obtain ⟨phase, hphase, hgives⟩ := h
  cases hphase.symm.trans hclient
  have hlt : i < x.clients.length := (List.getElem?_eq_some_iff.1 hclient).1
  cases phase with
  | fresh =>
    cases hacts with
    | begins hbegin =>
      refine ⟨_, List.getElem?_set_self hlt, fun inlet hinlet => ?_⟩
      obtain ⟨-, ⟨inlets, hinlets, rfl, -⟩ | ⟨hclose, -⟩⟩ := PipelineTask.of_begin?_eq_some hbegin
      · obtain hall | hnone := hinformed.attached
        · rw [hinformed.plan, hinlets, Option.some.injEq] at hall
          subst hall
          rw [hgives, sendsTo_of_mem p.nodup_inlets hinlet]
          rfl
        · cases hnone.symm.trans hinlets
      · cases hclose
    | refused => exact ⟨.rejected, List.getElem?_set_self hlt, trivial⟩
  | sending sends =>
    cases sends with
    | nil =>
      cases hacts
      refine ⟨.returned, List.getElem?_set_self hlt, fun inlet hinlet => ?_⟩
      exact (List.append_nil _).symm.trans (hgives inlet hinlet)
    | cons s sends =>
      have hsent : (CallPhase.sending sends).Gives p (.batch b) i (x.given ++ [(i, s)]) := by
        intro inlet hinlet
        rw [givenBy_append, givenBy_singleton, if_pos rfl, List.append_assoc,
          ← hgives inlet hinlet, sendsTo_cons inlet.process s sends, sendsTo_cons _ s []]
        exact congrArg (_ ++ ·) (congrArg (· ++ _) (List.append_nil _))
      cases hacts with
      | sends => exact ⟨_, List.getElem?_set_self hlt, hsent⟩
      | misses => exact ⟨_, List.getElem?_set_self hlt, hsent⟩
      | rejected => exact ⟨.rejected, List.getElem?_set_self hlt, trivial⟩
  | returned => cases hacts
  | rejected => cases hacts

theorem Collects.moves (h : x.Collects p b i) (hinformed : x.Informed p)
    (hmoves : x.Moves move x') : x'.Collects p b i := by
  cases hmoves with
  | @acts j client _ hclient hacts =>
    by_cases hj : j = i
    · subst hj
      exact h.acts hinformed hclient hacts
    · exact h.of_ne hj hacts
  | moves => exact h.of_eq rfl fun _ => rfl
  | sets => exact h.of_eq rfl fun _ => rfl

/-- The log notes the messages that clients gave. -/
def Tallies (x : Traffic) : Prop := ∀ k, fedTo k x.log = (givenTo k x.given).map (·.2)

theorem Tallies.moves (h : x.Tallies) (hmoves : x.Moves move x') : x'.Tallies := by
  have hgave (i : Nat) (s : Send) (k : Nat) : fedTo k (x.log ++ [.fed s.1 s.2]) =
      (givenTo k (x.given ++ [(i, s)])).map (·.2) := by
    rw [fedTo_append, givenTo_append, List.map_append, h k, givenTo_singleton]
    by_cases hk : s.1 = k <;> simp [fedTo, hk]
  cases hmoves with
  | @acts i client _ hclient hacts =>
    generalize client.intent x.clock x.task = intent at hacts
    cases hacts with
    | sends => exact hgave i _
    | misses => exact hgave i _
    | rejected => exact hgave i _
    | begins => exact h
    | refused => exact h
    | turns => exact h
    | records => exact h
    | requests => exact h
  | moves =>
    intro k
    rw [fedTo_append, fedTo_eventsOf, List.append_nil]
    exact h k
  | sets => exact h

/-- All that is known of a traffic in which a client collects a batch, seen from a source. -/
structure Acknowledges (p : Plan) (b : Batch) (i k : Nat) (x : Traffic) : Prop where
  informed : x.Informed p
  collects : x.Collects p b i
  tallies : x.Tallies
  heeds : x.Heeds k

theorem acknowledges_start {clients : List Client} (hnew : ∀ client ∈ clients, client.IsNew)
    (hcall : clients[i]? = some (.call (.batch b) .fresh)) (clock : Clock) (p : Plan) (k : Nat) :
    (start clock p clients).Acknowledges p b i k where
  informed := informed_start hnew clock p
  collects := ⟨.fresh, hcall, fun _ => rfl⟩
  tallies _ := rfl
  heeds := heeds_start clients clock p k

/-! ## What becomes of a batch -/

/-- A message that a client gave once, among all that was given to a process. -/
theorem exists_givenTo_eq {given : List (Nat × Send)} {m : Message}
    (h : givenBy k i given = [m]) : ∃ before after, givenTo k given = before ++ (i, m) :: after ∧
      ∀ g ∈ before ++ after, g.1 ≠ i := by
  obtain ⟨⟨j, m'⟩, hfilter, rfl⟩ := List.map_eq_singleton_iff.1 h
  obtain ⟨before, after, hgiven, hbefore, hj, hafter⟩ := List.filter_eq_cons_iff.1 hfilter
  obtain rfl : j = i := of_decide_eq_true hj
  refine ⟨before, after, hgiven, List.forall_mem_append.2 ⟨fun g hg heq => ?_, fun g hg heq => ?_⟩⟩
  · exact hbefore g hg (decide_eq_true heq)
  · exact List.filter_eq_nil_iff.1 hafter g hg (decide_eq_true heq)

theorem countP_eq_zero {l : List (Nat × Message)} (h : ∀ g ∈ l, g.1 ≠ i) :
    l.countP (·.1 = i) = 0 :=
  List.countP_eq_zero.2 fun g hg heq => h g hg (of_decide_eq_true heq)

/-- Of what was given to it, a source that has taken all or has left without a failure has taken a
batch if no close was given before. -/
theorem countP_taken {q : Process} {before after taken : List (Nat × Message)}
    (hq : q.Heeds (taken.map fun g => ⟨0, g.2⟩))
    (htaken : taken <+: before ++ (i, .batch b) :: after)
    (hothers : ∀ g ∈ before ++ after, g.1 ≠ i)
    (hends : taken = before ++ (i, .batch b) :: after ∨ q.phase.isDone = true) :
    taken.countP (·.1 = i) = if before.any (·.2.isClose) then 0 else 1 := by
  obtain ⟨hbefore, hafter⟩ := List.forall_mem_append.1 hothers
  rcases isPrefix_append_cons htaken with hshort | ⟨rest, rfl, hrest⟩
  · -- the source has stopped short of the batch, so it has left, on a close
    have hdone : q.phase.isDone = true := hends.resolve_left fun hall => by
      have hlength := hshort.length_le
      rw [hall, List.length_append, List.length_cons] at hlength
      omega
    obtain ⟨g, hg, hclose⟩ := List.mem_map.1 (hq.done hdone)
    have hmessage : g.2 = .close := congrArg Envelope.message hclose
    rw [countP_eq_zero fun g hg => hbefore g (hshort.subset hg), if_pos]
    exact List.any_eq_true.2 ⟨g, hshort.subset hg, by rw [hmessage]; rfl⟩
  · -- a close before the batch would have been the last that was taken
    have hnone : before.any (·.2.isClose) = false := by
      refine List.any_eq_false.2 fun g hg hclose => ?_
      rw [List.map_append, List.map_cons] at hq
      refine hq.close_notMem rfl (List.mem_map.2 ⟨g, hg, ?_⟩)
      rw [Message.isClose_iff.1 hclose]
    have hitem : ((i, .batch b) :: rest).countP (·.1 = i) = rest.countP (·.1 = i) + 1 :=
      List.countP_cons_of_pos (decide_eq_true rfl)
    rw [hnone, if_neg Bool.false_ne_true, List.countP_append, countP_eq_zero hbefore, hitem,
      countP_eq_zero fun g hg => hafter g (hrest.subset hg)]

/-- When a call has returned, every source that accepts its batch was given it once. A source that
waits for more, or has left without a failure, has taken the batch once if no close was given to it
before, and else has not taken it and never will. -/
theorem acknowledged_taken_iff {bp : Blueprint} {settings : Settings}
    (h : Plan.ofBlueprint bp settings = .ok p) {clients : List Client}
    (hnew : ∀ client ∈ clients, client.IsNew) {clock : Clock} {moves : List Move}
    (hrun : (start clock p clients).run moves = some x)
    (hcall : clients[i]? = some (.call (.batch b) .fresh))
    (hreturned : x.clients[i]? = some (.call (.batch b) .returned)) {inlet : Inlet}
    (hinlet : inlet ∈ p.inlets) (haccepts : inlet.accepts b.name = true) :
    ∃ before after taken q,
      givenTo inlet.process x.given = before ++ (i, .batch b) :: after ∧
      (∀ g ∈ before ++ after, g.1 ≠ i) ∧
      taken <+: givenTo inlet.process x.given ∧
      x.takenBy inlet.process = taken.map (fun g => ⟨0, g.2⟩) ∧
      x.task.network.processes[inlet.process]? = some q ∧
      q.stage.batchesIn = (taken.filterMap (·.2.batch?)).length ∧
      (q.phase = .running ∧ q.inbox = [] ∨ q.phase.isDone = true →
        taken.countP (·.1 = i) = if before.any (·.2.isClose) then 0 else 1) := by
  obtain ⟨s, n, hs, hkind⟩ := Plan.exists_source_of_mem_inlets (List.mem_map_of_mem hinlet)
  have hinputs := (Plan.inputs_of_mem_stages h (List.mem_of_getElem? hs)).1 n hkind
  obtain ⟨hinformed, ⟨phase, hphase, hgives⟩, htallies, hheeds⟩ :
      x.Acknowledges p b i inlet.process :=
    run_induction (fun _ _ _ hx hmoves => ⟨hx.informed.moves hmoves,
      hx.collects.moves hx.informed hmoves, hx.tallies.moves hmoves,
      hx.heeds.moves hx.informed.grows hs hkind hinputs hmoves⟩)
      (acknowledges_start hnew hcall clock p inlet.process) hrun
  cases hphase.symm.trans hreturned
  have hgiven : givenBy inlet.process i x.given = [.batch b] := by
    rw [hgives inlet hinlet, Inlet.messages_singleton]
    exact if_pos haccepts
  obtain ⟨before, after, hsplit, hothers⟩ := exists_givenTo_eq hgiven
  obtain ⟨q, hq, hfollows⟩ := Execution.Reached.follows hinformed.grows hs
  -- what arrives at the source is what clients gave to it
  have harrivals : arrivals (historyOf inlet.process x.log) =
      (givenTo inlet.process x.given).map fun g => ⟨0, g.2⟩ := by
    rw [Execution.Reached.arrivals_eq_fedTo hinformed.grows hs hinputs]
    show (fedTo inlet.process x.log).map _ = _
    rw [htallies, List.map_map]
    rfl
  let taken := (givenTo inlet.process x.given).take (x.takenBy inlet.process).length
  have htaken : x.takenBy inlet.process = taken.map fun g => ⟨0, g.2⟩ := by
    rw [List.map_take, ← harrivals]
    exact List.prefix_iff_eq_take.1 hfollows.taken
  have hprefix : taken <+: givenTo inlet.process x.given := List.take_prefix _ _
  have hq' := hheeds q hq
  refine ⟨before, after, taken, q, hsplit, hothers, hprefix, htaken, hq, ?_, fun hends => ?_⟩
  · rw [hq'.counted, htaken, batchesAmong, List.filterMap_map]
    rfl
  · rw [htaken] at hq'
    rw [hsplit] at hprefix
    refine countP_taken hq' hprefix hothers (hends.imp_left fun hwaits => ?_)
    obtain ⟨hphase, hin⟩ := hwaits
    -- it has nothing left to take
    have hall := hfollows.inbox (by rw [hphase]; rfl)
    rw [hin, List.append_nil, harrivals] at hall
    rw [← hsplit]
    exact List.take_of_length_le (by
      rw [takenBy, hall, List.length_map])

/-- Client 0 collects a batch, and client 1 closes the input. -/
def collectAndClose (b : Batch) : List Client := [.call (.batch b) .fresh, .call .close .fresh]

/-- The close comes after the batch. -/
theorem acknowledged_taken_iff_before_close :
    let b := Replay.batchAt [⟨1⟩]
    let moves : List Move := List.replicate 3 (.client 0) ++ List.replicate 2 (.client 1) ++
      List.replicate 3 (.task (.step 0))
    ∃ (x : Traffic) (taken : List (Nat × Message)),
      (start ⟨⟨0⟩⟩ Replay.planOfSource (collectAndClose b)).run moves = some x ∧
      x.clients[0]? = some (.call (.batch b) .returned) ∧
      x.takenBy 0 = taken.map (fun g => ⟨0, g.2⟩) ∧ taken.countP (·.1 = 0) = 1 := by
  intro b moves
  have hnew : ∀ client ∈ collectAndClose b, client.IsNew := by
    simp only [collectAndClose, List.forall_mem_cons]
    exact ⟨.call _, .call _, nofun⟩
  obtain ⟨x, hrun, hreturned, hgiven, hdone⟩ :
      ∃ x, (start ⟨⟨0⟩⟩ Replay.planOfSource (collectAndClose b)).run moves = some x ∧
        x.clients[0]? = some (.call (.batch b) .returned) ∧
        givenTo 0 x.given = [(0, .batch b), (1, .close)] ∧
        (x.task.network.processes[0]?).all (·.phase.isDone) = true := by
    with_unfolding_all exact ⟨_, rfl, rfl, rfl, rfl⟩
  have hinlet : ⟨0, none⟩ ∈ Replay.planOfSource.inlets := List.mem_singleton_self _
  obtain ⟨before, after, taken, q, hsplit, hothers, -, htaken, hq, -, hcount⟩ :=
    acknowledged_taken_iff ofBlueprint_onlySource hnew hrun rfl hreturned hinlet rfl
  rw [hq] at hdone
  refine ⟨x, taken, hrun, hreturned, htaken, (hcount (.inr hdone)).trans ?_⟩
  cases before with
  | nil => rfl
  | cons g rest =>
    rw [hgiven] at hsplit
    exact absurd (congrArg Prod.fst (List.cons.inj hsplit).1).symm (hothers g List.mem_cons_self)

/-- The close comes between the beginning of the call and its send. The call returns all the same,
nothing fails or is aborted, and the source ends without having taken the batch. -/
theorem acknowledged_never_taken :
    let b := Replay.batchAt [⟨1⟩]
    let moves : List Move := [.client 0, .client 1, .client 1, .client 0, .client 0] ++
      List.replicate 2 (.task (.step 0))
    Plan.ofBlueprint onlySource .standard = .ok Replay.planOfSource ∧
      ∃ x, (start ⟨⟨0⟩⟩ Replay.planOfSource (collectAndClose b)).run moves = some x ∧
        x.clients[0]? = some (.call (.batch b) .returned) ∧ x.task.failure = none ∧
        x.task.abortRequested = false ∧ x.task.network.hasExited = true ∧
        x.takenBy 0 = [⟨0, .close⟩] ∧
        (x.task.network.processes[0]?).map (·.stage.batchesIn) = some 0 := by
  intro b moves
  refine ⟨ofBlueprint_onlySource, ?_⟩
  with_unfolding_all exact ⟨_, rfl, rfl, rfl, rfl, rfl, rfl, rfl⟩

end Traffic

end SeriesPipeline
