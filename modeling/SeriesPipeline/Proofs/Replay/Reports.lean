import SeriesPipeline.Proofs.Task.Rejections

/-!
# Reports of replays

What a replay leaves behind when it reports how it has ended. It has closed the input, or it has
failed the task and asked for the abort, or it puts its end down to a failure of the task. In the
last case it does neither itself: the source that has failed is gone, but when the plan has others,
they and all that read from them may wait for more input for ever.
-/

namespace SeriesPipeline

/-! ## Tasks that wait -/

/-- Whether a process has nothing to do until something arrives. -/
def Process.isIdle (p : Process) : Bool :=
  p.outbox.isEmpty &&
    match p.phase with
    | .running => p.inbox.isEmpty
    | .closed _ | .aborted => true
    | .failed _ | .leaving _ => false

namespace Network

variable {n : Network}

theorem turn_of_isIdle {p : Process} (h : p.isIdle = true) (now : Instant) (r : Results) :
    turn now r p = none := by
  unfold turn
  obtain ⟨-, hphase⟩ := Bool.and_eq_true_iff.1 h
  cases hp : p.phase with
  | running =>
    rw [hp] at hphase
    rw [List.isEmpty_iff.1 hphase]
  | closed failure => rfl
  | aborted => rfl
  | _ =>
    rw [hp] at hphase
    cases hphase

theorem step?_of_isIdle (h : n.processes.all (·.isIdle) = true) (now : Instant) (k : Nat) :
    n.step? now k = none := by
  rw [step?_eq]
  cases hp : n.processes[k]? with
  | none => rfl
  | some p =>
    have hidle := List.all_eq_true.1 h p (List.mem_of_getElem? hp)
    have hout := List.isEmpty_iff.1 (Bool.and_eq_true_iff.1 hidle).1
    rw [Option.bind_some, stepHead, hout]
    dsimp only
    rw [turn_of_isIdle hidle]
    rfl

end Network

/-- Whether a task waits for input, and would wait for ever if there were none. -/
def PipelineTask.isWaiting (t : PipelineTask) : Bool :=
  t.network.processes.all (·.isIdle) && !t.abortRequested && !t.network.isDoomed &&
    !t.network.hasExited

theorem PipelineTask.move?_of_isWaiting {t : PipelineTask} (h : t.isWaiting = true) (now : Instant)
    (move : Move) : t.move? now move = none := by
  simp only [isWaiting, Bool.and_eq_true, Bool.not_eq_true'] at h
  obtain ⟨⟨⟨hidle, habort⟩, hdoomed⟩, hexited⟩ := h
  cases move with
  | step k => rw [move?, Network.step?_of_isIdle hidle, Option.map_none]
  | abort k => rw [move?, habort, hdoomed, Bool.or_self, if_neg Bool.false_ne_true]
  | shut => rw [move?, hexited, if_neg Bool.false_ne_true]
  | finish => rw [move?, hexited, Bool.false_and, if_neg Bool.false_ne_true]

/-! ## Reports -/

namespace Traffic

variable {p : Plan} {x : Traffic}

/-- A replay that reports success has closed the input, and one that reports a failure has recorded
one and asked for the abort, unless it was stopped by the first failure of the task. The input is
closed then, or a source is gone. -/
theorem reported_closes_or_blames {clients : List Client} (hnew : ∀ client ∈ clients, client.IsNew)
    {clock : Clock} {moves : List Move} (hrun : (start clock p clients).run moves = some x)
    {result : Except Failure Unit} (hreported : .replay (.reported result) ∈ x.clients) :
    (result.isOk = true → x.task.isClosed = true) ∧
      ∀ cause, result = .error cause →
        (x.task.failure.isSome ∧ x.task.abortRequested = true) ∨
          ∃ first, cause = .task p.name first ∧ x.task.failure = some first ∧
            (x.task.isClosed = true ∨ ∃ inlet ∈ p.inlets, ∃ q,
              x.task.network.processes[inlet.process]? = some q ∧ q.phase.isOpen = false) := by
  have hx : x.Informed p := informed_of_run hnew hrun
  have hname : x.task.name = p.name := congrArg Plan.name hx.plan
  cases hx.clients _ hreported with
  | succeeded hnone => exact ⟨fun _ => Option.isNone_iff_eq_none.2 hnone, nofun⟩
  | failed hsome habort => exact ⟨nofun, fun cause _ => .inl ⟨hsome, habort⟩⟩
  | @blamed name first hsame hfirst hshut =>
    refine ⟨nofun, ?_⟩
    rintro _ ⟨⟩
    refine .inr ⟨first, by rw [hsame, hname], hfirst, ?_⟩
    rw [PipelineTask.IsShut, hx.plan] at hshut
    exact hshut.imp_left Option.isNone_iff_eq_none.2

/-- Two sources that a union reads from. -/
def twoSources : Blueprint :=
  ⟨"p", [⟨"a", .source ⟨some "a", none, none, .empty, none⟩, []⟩,
    ⟨"b", .source ⟨some "b", none, none, .empty, none⟩, []⟩, ⟨"u", .union ⟨none⟩, ["a", "b"]⟩]⟩

def planOfTwo : Plan :=
  ⟨"p", .standard, [⟨"b", "b", .source ⟨some "b", none, none, .empty, none⟩, []⟩,
    ⟨"a", "a", .source ⟨some "a", none, none, .empty, none⟩, []⟩,
    ⟨"u", "u", .union ⟨none⟩, [1, 0]⟩], []⟩

/-- The first source has failed by the time the replay sends its second batch. Nobody closes the
second source or asks for the abort, and nothing is left to do for the task. -/
theorem reported_leaves_open :
    let clients : List Client :=
      [.replay (.feeding (.new .driven [unevenBatch "a" ⟨1⟩, unevenBatch "a" ⟨1⟩]))]
    let moves : List Move := List.replicate 3 (.client 0) ++ List.replicate 4 (.task (.step 1)) ++
      [.task (.step 2)] ++ List.replicate 4 (.client 0)
    Plan.ofBlueprint twoSources .standard = .ok planOfTwo ∧
      ∃ x first, (start ⟨⟨0⟩⟩ planOfTwo clients).run moves = some x ∧
        x.clients = [.replay (.reported (.error (.task "p" first)))] ∧
        x.task.failure = some first ∧ x.task.isClosed = false ∧ x.task.abortRequested = false ∧
        ∀ now move, x.task.move? now move = none := by
  intro clients moves
  refine ⟨by with_unfolding_all rfl, ?_⟩
  obtain ⟨x, first, hrun, hclients, hfirst, hclosed, habort, hwaiting⟩ :
      ∃ x first, (start ⟨⟨0⟩⟩ planOfTwo clients).run moves = some x ∧
        x.clients = [.replay (.reported (.error (.task "p" first)))] ∧
        x.task.failure = some first ∧ x.task.isClosed = false ∧ x.task.abortRequested = false ∧
        x.task.isWaiting = true := by
    with_unfolding_all exact ⟨_, _, rfl, rfl, rfl, rfl, rfl, rfl⟩
  exact ⟨x, first, hrun, hclients, hfirst, hclosed, habort,
    PipelineTask.move?_of_isWaiting hwaiting⟩

/-- A replay that goes back in time fails the task. -/
theorem reported_closes_or_blames_outOfOrder :
    let clients : List Client :=
      [.replay (.feeding (.new .driven [Replay.batchAt [⟨2⟩], Replay.batchAt [⟨1⟩]]))]
    ∃ x cause, (start ⟨⟨0⟩⟩ Replay.planOfSource clients).run (List.replicate 7 (.client 0)) =
        some x ∧ .replay (.reported (.error cause)) ∈ x.clients ∧ x.task.failure.isSome ∧
      x.task.abortRequested = true := by
  intro clients
  have hnew : ∀ client ∈ clients, client.IsNew := by
    simp only [clients, List.forall_mem_cons]
    exact ⟨.batches _ _, nofun⟩
  obtain ⟨x, hrun, hclients⟩ :
      ∃ x, (start ⟨⟨0⟩⟩ Replay.planOfSource clients).run (List.replicate 7 (.client 0)) = some x ∧
        x.clients = [.replay (.reported (.error (.outOfOrder 1 ⟨1⟩ ⟨2⟩)))] := by
    with_unfolding_all exact ⟨_, rfl, rfl⟩
  have hreported := hclients.symm ▸ List.mem_singleton_self _
  obtain ⟨hsome, habort⟩ := ((reported_closes_or_blames hnew hrun hreported).2 _ rfl).resolve_right nofun
  exact ⟨x, _, hrun, hreported, hsome, habort⟩

end Traffic

end SeriesPipeline
