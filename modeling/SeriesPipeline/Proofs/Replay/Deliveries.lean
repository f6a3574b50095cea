import SeriesPipeline.Proofs.Replay.Reading

/-!
# What the calls of a replay deliver

Every inlet is given what the calls bring to it, in their order, as far as it is not still to be
sent. Only the close is no longer sent when the task has ended before.
-/

namespace SeriesPipeline

/-! ## Sends of a call -/

/-- What is to be sent to process number `k`. -/
def sendsTo (k : Nat) (sends : List Send) : List Message := (sends.filter (·.1 = k)).map (·.2)

theorem sendsTo_cons (k : Nat) (s : Send) (sends : List Send) :
    sendsTo k (s :: sends) = (if s.1 = k then [s.2] else []) ++ sendsTo k sends := by
  rw [sendsTo, List.filter_cons]
  by_cases hk : s.1 = k <;> simp [sendsTo, hk]

/-- What is sent is given. -/
theorem fedTo_fed_append_sendsTo (k : Nat) (log : List Event) (s : Send) (sends : List Send) :
    fedTo k (log ++ [.fed s.1 s.2]) ++ sendsTo k sends = fedTo k log ++ sendsTo k (s :: sends) := by
  have hfed : fedTo k [.fed s.1 s.2] = if s.1 = k then [s.2] else [] := by
    by_cases hk : s.1 = k <;> simp [fedTo, hk]
  rw [fedTo_append, hfed, List.append_assoc, sendsTo_cons]

/-- Steps of processes give nothing. -/
theorem fedTo_events (k : Nat) (now : Instant) (i : Nat) (p : Process) :
    fedTo k (p.events now i) = [] := by
  rw [Process.events]
  split <;> rfl

theorem Inlet.messages_singleton (i : Inlet) (c : Call) :
    i.messages [c] = if c.reaches i then [c.message] else [] := by
  rw [messages, List.filter_cons]
  split <;> rfl

theorem Inlet.close_mem_of_close_mem_messages {i : Inlet} {calls : List Call}
    (h : .close ∈ i.messages calls) : .close ∈ calls := by
  obtain ⟨c, hc, hmessage⟩ := List.mem_map.1 h
  cases c with
  | close => exact List.mem_of_mem_filter hc
  | batch b => cases hmessage
  | barrier t => cases hmessage

theorem sendsTo_of_notMem {inlets : List Inlet} {k : Nat} (h : k ∉ inlets.map (·.process))
    (c : Call) :
    sendsTo k ((inlets.filter (c.reaches ·)).map fun j => (j.process, c.message)) = [] := by
  rw [sendsTo, List.map_eq_nil_iff, List.filter_eq_nil_iff]
  intro s hs
  obtain ⟨j, hj, rfl⟩ := List.mem_map.1 hs
  rw [decide_eq_true_iff]
  rintro rfl
  exact h (List.mem_map_of_mem (List.mem_of_mem_filter hj))

/-- A call sends its message once to every inlet that it reaches. -/
theorem sendsTo_of_mem {inlets : List Inlet} (hnodup : (inlets.map (·.process)).Nodup) {i : Inlet}
    (hi : i ∈ inlets) (c : Call) :
    sendsTo i.process ((inlets.filter (c.reaches ·)).map fun j => (j.process, c.message)) =
      i.messages [c] := by
  induction inlets with
  | nil => cases hi
  | cons j rest ih =>
    obtain ⟨hj, hrest⟩ := List.nodup_cons.1 hnodup
    rw [Inlet.messages_singleton, List.filter_cons]
    rcases List.mem_cons.1 hi with rfl | hi
    · split
      · rw [List.map_cons, sendsTo_cons, if_pos rfl, sendsTo_of_notMem hj]
        rfl
      · exact sendsTo_of_notMem hj c
    · have hne : j.process ≠ i.process := fun heq => hj (List.mem_map.2 ⟨i, hi, heq.symm⟩)
      rw [← Inlet.messages_singleton, ← ih hrest hi]
      split
      · rw [List.map_cons, sendsTo_cons, if_neg hne]
        rfl
      · rfl

/-- The inlets of a plan lead to different processes. -/
theorem Plan.nodup_inlets (p : Plan) : (p.inlets.map (·.process)).Nodup := by
  have hprocess {i : Nat} {s : PlannedStage} {inlet : Inlet} (h : inlet? i s = some inlet) :
      inlet.process = i := by
    rw [inlet?] at h
    split at h <;> cases h
    rfl
  rw [List.Nodup, List.pairwise_map, inlets, List.reduceOption, List.pairwise_filterMap,
    List.pairwise_iff_getElem]
  intro i j hi hj hlt
  rw [List.getElem_mapIdx, List.getElem_mapIdx]
  intro inlet hinlet inlet' hinlet'
  rw [hprocess hinlet, hprocess hinlet']
  exact Nat.ne_of_lt hlt

namespace Drive

/-- What a drive for `p` has delivered. -/
structure Delivers (p : Plan) (d : Drive) : Prop where
  inlets : d.task.inlets = some p.inlets ∨
    d.task.inlets = none ∧ (.close ∈ d.calls ∨ d.task.finished = true)
  delivered : ∀ i ∈ p.inlets,
    fedTo i.process d.log ++ sendsTo i.process d.replay.sends = i.messages d.calls ∨
      d.task.finished = true ∧
        fedTo i.process d.log ++ sendsTo i.process d.replay.sends ++ [.close] = i.messages d.calls
  others : ∀ k ∉ p.inlets.map (·.process), fedTo k d.log ++ sendsTo k d.replay.sends = []

variable {p : Plan} {d d' : Drive} {move : Move}

theorem delivers_start (clock : Clock) (p : Plan) (r : Replay) (hsends : r.sends = []) :
    (start clock (.launch p) r).Delivers p := by
  have hnone (k : Nat) : fedTo k (start clock (.launch p) r).log ++ sendsTo k r.sends = [] := by
    rw [hsends]
    rfl
  exact ⟨.inl rfl, fun i _ => .inl (hnone i.process), fun k _ => hnone k⟩

/-- The task goes on without any call or send. -/
theorem Delivers.of_eq (h : d.Delivers p) (hreplay : d'.replay = d.replay)
    (hcalls : d'.calls = d.calls) (hlog : ∀ k, fedTo k d'.log = fedTo k d.log)
    (hinlets : d'.task.inlets = d.task.inlets ∨
      d'.task.inlets = none ∧ d'.task.finished = true)
    (hfinished : d.task.finished = true → d'.task.finished = true) : d'.Delivers p := by
  refine ⟨?_, fun i hi => ?_, fun k hk => ?_⟩
  · rw [hcalls]
    rcases hinlets with hinlets | ⟨hnone, hended⟩
    · rw [hinlets]
      exact h.inlets.imp_right (.imp_right (.imp_right hfinished))
    · exact .inr ⟨hnone, .inr hended⟩
  · rw [hlog, hreplay, hcalls]
    exact (h.delivered i hi).imp_right (.imp_left hfinished)
  · rw [hlog, hreplay]
    exact h.others k hk

/-- A message is given to its process, which may be gone. -/
theorem Delivers.fed (h : d.Delivers p) {s : Send} {sends : List Send}
    (hsends : d.replay.sends = s :: sends) {network : Network}
    {outcome : Option (Except Failure Unit)} :
    ({ d with
      task := { d.task with network }, replay := { d.replay with sends }, outcome
      log := d.log ++ [.fed s.1 s.2] } : Drive).Delivers p := by
  refine ⟨h.inlets, fun i hi => ?_, fun k hk => ?_⟩
  · rw [fedTo_fed_append_sendsTo, ← hsends]
    exact h.delivered i hi
  · rw [fedTo_fed_append_sendsTo, ← hsends]
    exact h.others k hk

/-- A call begins that comes before the close, or is the close. -/
theorem Delivers.begins (h : d.Delivers p) (hopen : .close ∉ d.calls) (hsends : d.replay.sends = [])
    {c : Call} {task : PipelineTask} {sends : List Send}
    (hbegin : d.task.begin? c = some (task, sends)) {calls : List Call} :
    ({ d with
      task, replay := { d.replay with calls, sends }
      calls := d.calls ++ [c] } : Drive).Delivers p := by
  obtain ⟨⟨-, -, hfinished⟩, hbegins⟩ := PipelineTask.of_begin?_eq_some hbegin
  have hall (i : Inlet) (hi : i ∈ p.inlets) : fedTo i.process d.log = i.messages d.calls := by
    have hdelivered := h.delivered i hi
    rw [hsends, sendsTo, List.filter_nil, List.map_nil, List.append_nil] at hdelivered
    rcases hdelivered with hdelivered | ⟨-, hdelivered⟩
    · exact hdelivered
    · refine absurd (Inlet.close_mem_of_close_mem_messages (i := i) ?_) hopen
      rw [← hdelivered]
      exact List.mem_append_right _ (List.mem_singleton_self _)
  have hothers (k : Nat) (hk : k ∉ p.inlets.map (·.process)) : fedTo k d.log = [] :=
    (List.append_eq_nil_iff.1 (h.others k hk)).1
  rcases hbegins with ⟨inlets, hinlets, rfl, htask⟩ | ⟨rfl, hinlets, htask, rfl⟩
  · obtain hsome | ⟨hnone, -⟩ := h.inlets
    · cases hsome.symm.trans hinlets
      refine ⟨?_, fun i hi => .inl ?_, fun k hk => ?_⟩
      · rcases htask with ⟨htask, -⟩ | ⟨htask, rfl⟩
        · exact .inl htask
        · exact .inr ⟨htask, .inl (List.mem_append_right _ (List.mem_singleton_self _))⟩
      · dsimp only
        rw [sendsTo_of_mem p.nodup_inlets hi, hall i hi, Inlet.messages_append]
      · dsimp only
        rw [sendsTo_of_notMem hk, hothers k hk]
        rfl
    · cases hnone.symm.trans hinlets
  · obtain hsome | ⟨-, hclosed⟩ := h.inlets
    · cases hsome.symm.trans hinlets
    -- the task has ended before its input was closed
    have hended := hfinished.trans (hclosed.resolve_left hopen)
    refine ⟨.inr ⟨htask, .inr hended⟩, fun i hi => .inr ⟨hended, ?_⟩, fun k hk => ?_⟩
    · dsimp only
      rw [hall i hi, Inlet.messages_append]
      exact congrArg (· ++ [Message.close]) (List.append_nil (i.messages d.calls))
    · dsimp only
      rw [hothers k hk]
      rfl

theorem Delivers.goesOn (h : d.Delivers p)
    (hopen : ∀ c calls, d.replay.calls = c :: calls → .close ∉ d.calls) (hgoes : d.GoesOn d') :
    d'.Delivers p := by
  cases hgoes with
  | sends hsends => exact h.fed hsends
  | misses hsends => exact h.fed hsends
  | rejected hsends => exact h.fed hsends
  | begins hsends hcalls hbegin => exact h.begins (hopen _ _ hcalls) hsends hbegin
  | refused => exact ⟨h.inlets, h.delivered, h.others⟩
  | turns hsends hcalls hnext =>
    have hsends' := Replay.sends_of_turns (hnext ▸ Replay.turns_next d.clock d.replay)
    refine ⟨h.inlets, fun i hi => ?_, fun k hk => ?_⟩
    · dsimp only
      rw [hsends']
      exact h.delivered i hi
    · dsimp only
      rw [hsends']
      exact h.others k hk
  | finished => exact ⟨h.inlets, h.delivered, h.others⟩
  | outOfOrder => exact ⟨h.inlets, h.delivered, h.others⟩

theorem Delivers.moves (h : d.Delivers p)
    (hopen : ∀ c calls, d.replay.calls = c :: calls → .close ∉ d.calls)
    (hmoves : d.Moves move d') : d'.Delivers p := by
  cases hmoves with
  | goesOn _ hgoes => exact h.goesOn hopen hgoes
  | steps =>
    refine h.of_eq rfl rfl (fun i => ?_) (.inl rfl) id
    rw [fedTo_append, fedTo_events, List.append_nil]
  | aborts => exact h.of_eq rfl rfl (fun _ => rfl) (.inl rfl) id
  | finishes => exact h.of_eq rfl rfl (fun _ => rfl) (.inr ⟨rfl, rfl⟩) fun _ => rfl
  | rests => exact h
  | sets => exact h.of_eq rfl rfl (fun _ => rfl) (.inl rfl) id

end Drive

end SeriesPipeline
