import SeriesPipeline.Proofs.Replay.Reading
import SeriesPipeline.Proofs.Task.Settle

/-!
# Replays as drives

A replay that goes on by itself, with the task settled after each message, is a drive. Its messages
find empty inboxes, so it comes to an end unless it has to wait for the clock.
-/

namespace SeriesPipeline

/-- Every process that is still there takes what it is offered. -/
structure PipelineTask.IsReady (t : PipelineTask) : Prop where
  capacity : 1 ≤ t.network.capacity
  idle : t.network.IsIdle

namespace PipelineTask

variable {t t' : PipelineTask} {s : Send}

theorem isReady_launch (p : Plan) : (launch p).IsReady where
  capacity := Nat.le_max_left ..
  idle q hq _ := (p.isNew_of_mem_network q hq).inbox

theorem IsReady.offer_ne_full (h : t.IsReady) (s : Send) : t.offer s ≠ .full := by
  intro hfull
  rw [offer] at hfull
  cases hoffer : t.network.offer s.1 ⟨0, s.2⟩ with
  | full => exact h.idle.offer_ne_full h.capacity s.1 _ hoffer
  | taken network =>
    rw [hoffer] at hfull
    cases hfull
  | gone =>
    rw [hoffer] at hfull
    cases hfull

theorem isReady_settle (hcapacity : 1 ≤ t.network.capacity) (now : Instant) :
    (t.settle now).IsReady := by
  have hidle := Network.isIdle_settle hcapacity now
  rw [settle, superviseAbort]
  split
  · rw [superviseEnd]
    split <;> exact ⟨hcapacity, hidle.abort⟩
  · rw [superviseEnd]
    split <;> exact ⟨hcapacity, hidle⟩

theorem IsReady.of_network_eq (h : t.IsReady) (hnetwork : t'.network = t.network) : t'.IsReady :=
  ⟨hnetwork ▸ h.capacity, hnetwork ▸ h.idle⟩

/-- An offer that is taken changes the network only. -/
theorem of_offer_eq_taken (h : t.offer s = .taken t') :
    ∃ network, t.network.offer s.1 ⟨0, s.2⟩ = .taken network ∧ t' = { t with network } := by
  rw [offer] at h
  cases hoffer : t.network.offer s.1 ⟨0, s.2⟩ with
  | taken network =>
    rw [hoffer] at h
    cases h
    exact ⟨network, rfl, rfl⟩
  | gone =>
    rw [hoffer] at h
    cases h
  | full =>
    rw [hoffer] at h
    cases h

end PipelineTask

namespace Drive

/-- One drive comes to another while nobody else sets the clock. -/
def Reaches (d d' : Drive) : Prop := ∃ moves, (∀ t, .set t ∉ moves) ∧ d.run moves = some d'

variable {d d' e : Drive}

theorem Reaches.refl (d : Drive) : d.Reaches d := ⟨[], fun _ => List.not_mem_nil, rfl⟩

theorem Reaches.trans (h : d.Reaches e) (h' : e.Reaches d') : d.Reaches d' := by
  obtain ⟨moves, hmoves, hrun⟩ := h
  obtain ⟨moves', hmoves', hrun'⟩ := h'
  refine ⟨moves ++ moves', fun t ht => ?_, ?_⟩
  · exact (List.mem_append.1 ht).elim (hmoves t) (hmoves' t)
  · have hfirst : moves.foldlM move? d = some e := hrun
    rw [run, List.foldlM_append, hfirst]
    exact hrun'

theorem reaches_of_move? (move : Move) (hset : ∀ t, .set t ≠ move)
    (h : d.move? move = some d') : d.Reaches d' := by
  refine ⟨[move], fun t ht => hset t (List.mem_singleton.1 ht), ?_⟩
  rw [run, List.foldlM_cons, h]
  rfl

theorem reaches_of_goOn? (h : d.goOn? = some d') : d.Reaches d' :=
  reaches_of_move? .replay (fun _ => nofun) h

/-! ## Settling -/

theorem reaches_of_steps {ks : List Nat} {network : Network}
    (h : ks.foldlM (Network.step? d.clock.now) d.task.network = some network) :
    ∃ log, d.Reaches { d with task := { d.task with network }, log } := by
  induction ks generalizing d with
  | nil =>
    cases h
    exact ⟨d.log, .refl d⟩
  | cons k ks ih =>
    rw [List.foldlM_cons] at h
    obtain ⟨n, hstep, hrest⟩ := Option.bind_eq_some_iff.1 h
    obtain ⟨q, hq, -⟩ := Network.exists_process_of_isSome_step? (Option.isSome_of_eq_some hstep)
    have hmove : d.move? (.step k) = some { d with
        task := { d.task with network := n }, log := d.log ++ q.events d.clock.now k } := by
      rw [move?, hq, Option.bind_eq_bind, Option.bind_some, hstep]
      rfl
    obtain ⟨log, hreaches⟩ := ih (d := { d with
      task := { d.task with network := n }, log := d.log ++ q.events d.clock.now k }) hrest
    exact ⟨log, (reaches_of_move? (.step k) (fun _ => nofun) hmove).trans hreaches⟩

theorem reaches_settle (d : Drive) :
    ∃ log, d.Reaches { d with task := d.task.settle d.clock.now, log } := by
  obtain ⟨ks, hks⟩ := (Network.settle_eq d.clock.now d.task.network).1
  obtain ⟨log, hreaches⟩ := reaches_of_steps hks
  exact ⟨log, (hreaches.trans (reaches_of_move? .abort (fun _ => nofun) rfl)).trans
    (reaches_of_move? .finish (fun _ => nofun) rfl)⟩

/-! ## Sending -/

/-- The messages of a call all find their way, unless one that is not a close is missed. -/
theorem reaches_deliver (hnone : d.outcome = none) (hready : d.task.IsReady) :
    (∃ t log, d.task.deliver d.clock.now d.replay.sends = (t, .done) ∧ t.IsReady ∧
      d.Reaches { d with task := t, replay := { d.replay with sends := [] }, log }) ∨
    ∃ t sends log, d.task.deliver d.clock.now d.replay.sends = (t, .rejected) ∧
      d.Reaches { d with
        task := t, replay := { d.replay with sends }
        outcome := some (.error (.inputClosed t.name)), log } := by
  generalize hsends : d.replay.sends = sends
  induction sends generalizing d with
  | nil =>
    refine .inl ⟨d.task, d.log, rfl, hready, ?_⟩
    rw [← hsends]
    exact .refl d
  | cons s rest ih =>
    have hgo : d.goOn? = d.send? s rest := by
      rw [goOn?, hnone, hsends]
    cases hoffer : d.task.offer s with
    | taken t =>
      -- the task settles after the message, so that the next one finds room
      let sent : Drive := { d with
        task := t, replay := { d.replay with sends := rest }, log := d.log ++ [.fed s.1 s.2] }
      have hsent : d.Reaches sent := reaches_of_goOn? (by rw [hgo, send?, hoffer])
      obtain ⟨log, hsettled⟩ := sent.reaches_settle
      have ht : (t.settle d.clock.now).IsReady := by
        obtain ⟨network, htaken, rfl⟩ := PipelineTask.of_offer_eq_taken hoffer
        have hcapacity := (Network.of_offer_eq_taken htaken).1
        exact PipelineTask.isReady_settle (hcapacity.symm ▸ hready.capacity) _
      have hdeliver : d.task.deliver d.clock.now (s :: rest) =
          (t.settle d.clock.now).deliver d.clock.now rest := by
        rw [PipelineTask.deliver, hoffer]
      obtain ⟨t', log', hdone, ht', hreaches⟩ | ⟨t', sends, log', hrejected, hreaches⟩ :=
        ih (d := { sent with task := t.settle d.clock.now, log }) hnone ht rfl
      · exact .inl ⟨t', log', hdeliver.trans hdone, ht', (hsent.trans hsettled).trans hreaches⟩
      · exact .inr
          ⟨t', sends, log', hdeliver.trans hrejected, (hsent.trans hsettled).trans hreaches⟩
    | gone =>
      let missed : Drive := { d with
        replay := { d.replay with sends := rest }, log := d.log ++ [.fed s.1 s.2] }
      by_cases hclose : s.2.isClose = true
      · have hmissed : d.Reaches missed :=
          reaches_of_goOn? (by rw [hgo, send?, hoffer]; exact if_pos hclose)
        have hdeliver : d.task.deliver d.clock.now (s :: rest) =
            d.task.deliver d.clock.now rest := by
          rw [PipelineTask.deliver, hoffer]
          exact if_pos hclose
        obtain ⟨t', log', hdone, ht', hreaches⟩ | ⟨t', sends, log', hrejected, hreaches⟩ :=
          ih (d := missed) hnone hready rfl
        · exact .inl ⟨t', log', hdeliver.trans hdone, ht', hmissed.trans hreaches⟩
        · exact .inr ⟨t', sends, log', hdeliver.trans hrejected, hmissed.trans hreaches⟩
      · refine .inr ⟨d.task, rest, missed.log, ?_, reaches_of_goOn? ?_⟩
        · rw [PipelineTask.deliver, hoffer]
          exact if_neg hclose
        · rw [hgo, send?, hoffer]
          exact if_neg hclose
    | full => exact absurd hoffer (hready.offer_ne_full s)

end Drive

/-! ## Whole replays -/

namespace Replay

/-- The clock stands at the last time of every batch that is left, or is set to it. -/
def IsTimely (clock : Clock) (r : Replay) : Prop :=
  r.mode = .driven ∨ ∀ b ∈ r.batches, ∀ last ∈ b.2.lastTime, last ≤ clock.now

/-- Whether less is left of a replay than of another. -/
abbrev Less (r' r : Replay) : Prop :=
  Prod.Lex (· < ·) (Prod.Lex (· < ·) (· < ·)) r'.left r.left

variable {clock clock' : Clock} {r r' : Replay}

theorem IsTimely.next_ne_waiting (h : r.IsTimely clock) : r.next clock ≠ .waiting := by
  intro hnext
  have hturns := r.turns_next clock
  rw [hnext] at hturns
  cases hturns with
  | waits hbatches hlast hclock =>
    rcases h with hmode | hpast
    · rw [hmode] at hclock
      cases hclock
    · have hle := hpast _ (hbatches ▸ List.mem_cons_self) _ hlast
      cases hmode : r.mode with
      | driven =>
        rw [hmode] at hclock
        cases hclock
      | paced =>
        rw [hmode, clockFor?, if_pos hle] at hclock
        cases hclock

theorem IsTimely.of_le (h : r.IsTimely clock) (hle : clock.now ≤ clock'.now) :
    r.IsTimely clock' :=
  h.imp_right fun hpast b hb last hlast => (hpast b hb last hlast).trans hle

theorem IsTimely.of_turns (h : r.IsTimely clock) (hturns : r.Turns clock (.ready clock' r')) :
    r'.IsTimely clock' := by
  refine h.imp (mode_of_turns hturns).trans fun hpast b hb last hlast => ?_
  generalize hnext : Next.ready clock' r' = next at hturns
  cases hturns with
  | finished => cases hnext
  | outOfOrder => cases hnext
  | waits => cases hnext
  | ends hbatches =>
    cases hnext
    exact hpast b hb last hlast
  | skips hbatches =>
    cases hnext
    exact hpast b (hbatches ▸ List.mem_cons_of_mem _ hb) last hlast
  | takes hbatches _ _ _ hclock =>
    cases hnext
    rw [now_of_clockFor? hclock]
    exact le_max_of_le_left (hpast b (hbatches ▸ List.mem_cons_of_mem _ hb) last hlast)

end Replay

namespace Drive

/-- A drive that has come to where a replay has. -/
def Shows (d : Drive) : Clock × PipelineTask × Replay.State → Prop
  | (clock, t, .pending r) => d.clock = clock ∧ d.task = t ∧ d.outcome = none ∧ d.replay = r
  | (clock, t, .ended o) => d.clock = clock ∧ d.task = t ∧ d.outcome = some o

/-- A replay goes on as a drive, and comes to its end unless it has to wait for the clock. -/
theorem reaches_advance {d : Drive} (hnone : d.outcome = none) (hready : d.task.IsReady) :
    ∃ result d', d.replay.advance d.clock d.task = result ∧ d.Reaches d' ∧ d'.Shows result ∧
      (d.replay.IsTimely d.clock → ∃ o, result.2.2 = .ended o) := by
  rw [Replay.advance]
  obtain ⟨t, log, hdone, ht, hsent⟩ | ⟨t, sends, log, hrejected, hsent⟩ :=
    reaches_deliver hnone hready
  · rw [hdone]
    dsimp only
    let sent : Drive := { d with task := t, replay := { d.replay with sends := [] }, log }
    split
    · rename_i c calls hcalls
      have hgo : sent.goOn? = some (sent.begin c calls) := by
        rw [goOn?, hnone, hcalls]
      have hbegun := hsent.trans (reaches_of_goOn? hgo)
      split
      · rename_i t' sends hbegin
        let begun : Drive := { sent with
          task := t', replay := { d.replay with calls, sends }, calls := d.calls ++ [c] }
        have heq : sent.begin c calls = begun := by
          rw [begin, hbegin]
        rw [heq] at hbegun
        have hnetwork := (PipelineTask.of_begin?_eq_some hbegin).1.2.1
        have hless : begun.replay.Less d.replay :=
          .right _ (.right _ (by rw [hcalls]; exact Nat.lt_succ_self _))
        obtain ⟨result, d', hadvance, hreaches, hshows, hend⟩ :=
          reaches_advance (d := begun) hnone (ht.of_network_eq hnetwork)
        exact ⟨result, d', hadvance, hbegun.trans hreaches, hshows, hend⟩
      · rename_i hbegin
        have heq : sent.begin c calls =
            { sent with outcome := some (.error (.inputClosed t.name)) } := by
          rw [begin, hbegin]
        rw [heq] at hbegun
        exact ⟨_, _, rfl, hbegun, ⟨rfl, rfl, rfl⟩, fun _ => ⟨_, rfl⟩⟩
    · rename_i hcalls
      have hgo : sent.goOn? = sent.turn? := by
        rw [goOn?, hnone, hcalls]
      split
      · rename_i hnext
        have hturn : sent.turn? = some { sent with outcome := some (.ok ()) } := by
          rw [turn?, hnext]
        exact ⟨_, _, rfl, hsent.trans (reaches_of_goOn? (hgo.trans hturn)), ⟨rfl, rfl, rfl⟩,
          fun _ => ⟨_, rfl⟩⟩
      · rename_i hnext
        refine ⟨_, sent, rfl, hsent, ⟨rfl, rfl, hnone, rfl⟩, fun htimely => ?_⟩
        have htimely' : sent.replay.IsTimely sent.clock := htimely
        exact absurd hnext htimely'.next_ne_waiting
      · rename_i cause hnext
        have hturn : sent.turn? = some { sent with outcome := some (.error cause) } := by
          rw [turn?, hnext]
        exact ⟨_, _, rfl, hsent.trans (reaches_of_goOn? (hgo.trans hturn)), ⟨rfl, rfl, rfl⟩,
          fun _ => ⟨_, rfl⟩⟩
      · rename_i clock replay hnext
        have hturn : sent.turn? = some { sent with clock, replay } := by
          rw [turn?, hnext]
        have hturns := hnext ▸ Replay.turns_next sent.clock sent.replay
        have hless : replay.Less d.replay := Replay.left_next (r := sent.replay) hnext
        obtain ⟨result, d', hadvance, hreaches, hshows, hend⟩ :=
          reaches_advance (d := { sent with clock, replay }) hnone ht
        have hturned := hsent.trans (reaches_of_goOn? (hgo.trans hturn))
        refine ⟨result, d', hadvance, hturned.trans hreaches, hshows, fun htimely => ?_⟩
        have htimely' : sent.replay.IsTimely sent.clock := htimely
        exact hend (htimely'.of_turns hturns)
  · rw [hrejected]
    exact ⟨_, _, rfl, hsent, ⟨rfl, rfl, rfl⟩, fun _ => ⟨_, rfl⟩⟩
termination_by d.replay.left
decreasing_by all_goals exact hless

/-- Inboxes have room for something, and the time of all batches that are left has come. -/
structure CanEnd (d : Drive) : Prop where
  capacity : 1 ≤ d.task.network.capacity
  timely : d.replay.IsTimely d.clock

theorem CanEnd.goesOn {d d' : Drive} (h : d.CanEnd) (hgoes : d.GoesOn d') : d'.CanEnd := by
  cases hgoes with
  | sends _ hoffer =>
    exact ⟨(Network.of_offer_eq_taken hoffer).1.symm ▸ h.capacity, h.timely⟩
  | misses => exact ⟨h.capacity, h.timely⟩
  | rejected => exact ⟨h.capacity, h.timely⟩
  | begins _ _ hbegin =>
    have hnetwork := (PipelineTask.of_begin?_eq_some hbegin).1.2.1
    refine ⟨?_, h.timely⟩
    dsimp only
    rw [hnetwork]
    exact h.capacity
  | refused => exact ⟨h.capacity, h.timely⟩
  | turns _ _ hnext =>
    exact ⟨h.capacity, h.timely.of_turns (hnext ▸ Replay.turns_next d.clock d.replay)⟩
  | finished => exact ⟨h.capacity, h.timely⟩
  | outOfOrder => exact ⟨h.capacity, h.timely⟩

theorem CanEnd.moves {d d' : Drive} {move : Move} (h : d.CanEnd) (hmoves : d.Moves move d') :
    d'.CanEnd := by
  cases hmoves with
  | goesOn _ hgoes => exact h.goesOn hgoes
  | steps _ hstep =>
    exact ⟨(Network.of_step?_eq_some hstep).1.symm ▸ h.capacity, h.timely⟩
  | aborts => exact ⟨h.capacity, h.timely⟩
  | finishes => exact ⟨h.capacity, h.timely⟩
  | rests => exact h
  | sets t =>
    refine ⟨h.capacity, h.timely.of_le ?_⟩
    rw [Clock.now_set]
    exact le_max_left d.clock.now t

/-- Whatever has happened so far, the replay can still come to its end. -/
theorem CanEnd.exists_end {d : Drive} (h : d.CanEnd) : ∃ d', d.Reaches d' ∧ d'.outcome.isSome := by
  cases hnone : d.outcome with
  | some o => exact ⟨d, .refl d, Option.isSome_of_eq_some hnone⟩
  | none =>
    obtain ⟨log, hsettled⟩ := d.reaches_settle
    obtain ⟨⟨clock, t, state⟩, d', -, hreaches, hshows, hend⟩ :=
      reaches_advance (d := { d with task := d.task.settle d.clock.now, log }) hnone
        (PipelineTask.isReady_settle h.capacity _)
    obtain ⟨o, rfl⟩ := hend h.timely
    exact ⟨d', hsettled.trans hreaches, Option.isSome_of_eq_some hshows.2.2⟩

end Drive

end SeriesPipeline
