import SeriesPipeline.Proofs.Plan.Flow
import SeriesPipeline.Proofs.Stage.Ports
import SeriesPipeline.Proofs.Task.Progress

/-!
# Progress of plans

Once its sources have been given their closes, a plan comes to its end: as long as some stage has
not exited, some stage can make a step, whatever was sent before and however small the inboxes are.
-/

namespace SeriesPipeline

variable {b : Blueprint} {settings : Settings} {p : Plan} {given : Nat → List Message}
  {x : Execution} {k : Nat} {s : PlannedStage}

/-! ## Closes -/

theorem mem_arrivals_of_fed {log : List Event} {m : Message} (h : .fed k m ∈ log) :
    ⟨0, m⟩ ∈ arrivals (historyOf k log) := by
  refine List.mem_filterMap.2 ⟨.arrived ⟨0, m⟩, List.mem_filterMap.2 ⟨_, h, ?_⟩, rfl⟩
  rw [Event.incident?, if_pos rfl]

theorem mem_arrivals_of_sent {log : List Event} {i : Nat} {outlet : Outlet} {m : Message}
    (h : .sent i outlet m ∈ log) (hk : i + 1 + outlet.between = k) :
    ⟨outlet.port, m⟩ ∈ arrivals (historyOf k log) := by
  refine List.mem_filterMap.2 ⟨.arrived ⟨outlet.port, m⟩, List.mem_filterMap.2 ⟨_, h, ?_⟩, rfl⟩
  rw [Event.incident?, if_neg (by omega), if_pos hk]

/-- A process that has ended has sent a close on each of its outlets. -/
theorem Process.Follows.close_mem_sendings {start process : Process} {history : List Incident}
    (h : start.Follows history process) (hended : process.hasEnded = true) {outlet : Outlet}
    (houtlet : outlet ∈ start.outlets) : (outlet, .close) ∈ sendings history := by
  rw [(h.of_hasEnded hended).2, broadcast_append]
  refine List.mem_append_right _ (List.mem_flatMap.2 ⟨.close, List.mem_cons_self, ?_⟩)
  exact List.mem_map_of_mem houtlet

theorem Process.hasExited_of_hasEnded {process : Process} (h : process.hasEnded = true) :
    process.hasExited = true := by
  rw [hasEnded] at h
  rw [hasExited]
  cases hphase : process.phase with
  | closed failure =>
    rw [hphase] at h
    exact h
  | aborted => rfl
  | _ =>
    rw [hphase] at h
    cases h

namespace Plan

theorem mem_inlets_of_source {n : SourceNode} (hs : p.stages[k]? = some s)
    (hkind : s.kind = .source n) : ⟨k, n.measurement⟩ ∈ p.inlets := by
  rw [inlets, List.reduceOption_mem_iff]
  refine List.mem_iff_getElem?.2 ⟨k, ?_⟩
  rw [List.getElem?_mapIdx, hs, Option.map_some, inlet?, hkind]

/-- Only sources read from no stage. -/
theorem inputs_ne_nil (h : ofBlueprint b settings = .ok p) (hs : s ∈ p.stages) :
    (∃ n, s.kind = .source n) ∨ s.inputs ≠ [] := by
  have hids := nodup_ids h
  obtain ⟨nodes, producers, hnodes, hlaid⟩ := exists_laidOut h
  obtain ⟨order, hcheck, -, rfl⟩ := of_ofBlueprint_eq_ok h
  have hmem : (s.id, s.node, s.kind) ∈ nodes.flatMap outline :=
    hlaid.outline ▸ List.mem_map_of_mem hs
  obtain ⟨n, hn, hs'⟩ := List.mem_flatMap.1 hmem
  have harity := (Blueprint.check_eq_ok_iff.1 hcheck).arity n (hnodes.mem_iff.1 hn)
  obtain ⟨number, inputs, hown, hinputs, hgrouping⟩ := hlaid.wired n hn
  -- a stage is known by its id
  have heq {i : Nat} {t : PlannedStage} (ht : (layOut b order)[i]? = some t) (hid : s.id = t.id) :
      s = t :=
    List.inj_on_of_nodup_map hids hs (List.mem_of_getElem? ht) hid
  rw [outline, List.mem_cons, Option.mem_toList] at hs'
  rcases hs' with hs' | hs'
  · obtain rfl := heq hown (Prod.mk.inj hs').1
    obtain ⟨id, kind, nodeInputs⟩ := n
    have hlength := hinputs.length_eq
    cases kind with
    | source source => exact .inl ⟨source, rfl⟩
    | _ =>
      refine .inr fun hnil => ?_
      subst hnil
      simp only [Node.HasArity] at harity
      simp only [List.length_nil] at hlength
      omega
  · obtain ⟨w, hw, hs'⟩ := Option.map_eq_some_iff.1 hs'
    obtain rfl := heq (hgrouping w hw) (Prod.mk.inj hs').1.symm
    exact .inr (List.cons_ne_nil _ _)

theorem ports_pos (h : ofBlueprint b settings = .ok p) (hs : s ∈ p.stages) : 0 < s.ports := by
  rw [PlannedStage.ports]
  split
  · exact Nat.zero_lt_one
  · rename_i hkind
    obtain ⟨n, hn⟩ | hne := inputs_ne_nil h hs
    · exact absurd hn (hkind n)
    · exact List.length_pos_iff.2 hne

end Plan

namespace Execution

/-- A stage has got a close on every port, once all stages before it have ended, or it is a source
and has been given one. -/
theorem Reached.close_mem_arrivals (hx : x.Reached p.network given)
    (h : Plan.ofBlueprint b settings = .ok p)
    (hclosed : ∀ inlet ∈ p.inlets, .fed inlet.process .close ∈ x.log)
    (hbefore : ∀ i < k, ∀ process, x.network.processes[i]? = some process →
      process.hasEnded = true) (hs : p.stages[k]? = some s) {port : Nat} (hport : port < s.ports) :
    ⟨port, .close⟩ ∈ arrivals (historyOf k x.log) := by
  rw [PlannedStage.ports] at hport
  split at hport
  · rename_i n hkind
    obtain rfl := Nat.lt_one_iff.1 hport
    exact mem_arrivals_of_fed (hclosed _ (Plan.mem_inlets_of_source hs hkind))
  · obtain ⟨nodes, producers, -, hlaid⟩ := Plan.exists_laidOut h
    obtain ⟨i, hi⟩ : ∃ i, s.inputs[port]? = some i := ⟨_, List.getElem?_eq_getElem hport⟩
    have hlt : i < k := hlaid.before k s hs i (List.mem_of_getElem? hi)
    have hk : i + 1 + (k - (i + 1)) = k := by omega
    obtain ⟨t, ht⟩ : ∃ t, p.stages[i]? = some t :=
      ⟨_, List.getElem?_eq_getElem (Nat.lt_trans hlt (List.getElem?_eq_some_iff.1 hs).1)⟩
    obtain ⟨process, hprocess, hfollows⟩ := hx.follows ht
    have houtlet : ⟨k - (i + 1), port⟩ ∈ (p.process i t).outlets :=
      Plan.mem_outletsFrom.2 ⟨s, by rw [List.getElem?_drop, hk, hs], hi⟩
    have hsent := hfollows.close_mem_sendings (hbefore i hlt process hprocess) houtlet
    exact mem_arrivals_of_sent (mem_sendings.1 hsent) hk

/-- Where no stage can make a step, every stage has exited. Stages read from stages before them, so
the first one that has not exited would have got all of its closes. -/
theorem Reached.hasExited_of_stuck (hx : x.Reached p.network given)
    (h : Plan.ofBlueprint b settings = .ok p) {capacity : Nat} (hcapacity : 1 ≤ capacity)
    (hlasting : x.Lasting capacity) {now : Instant} (hstuck : ∀ k, x.network.step? now k = none)
    (hclosed : ∀ inlet ∈ p.inlets, .fed inlet.process .close ∈ x.log) :
    x.network.hasExited = true := by
  by_contra hexited
  have hunaborted (process : Process) (hprocess : process ∈ x.network.processes) :
      process.phase ≠ .aborted :=
    fun haborted => hexited (hlasting.aborted ⟨process, hprocess, haborted⟩)
  -- induction along the stages, as a stage reads only from those before it
  have hended (k : Nat) : ∀ process, x.network.processes[k]? = some process →
      process.hasEnded = true := by
    induction k using Nat.strong_induction_on with
    | _ k hbefore =>
      intro process hprocess
      obtain ⟨hout, hwaits⟩ :=
        Network.waits_of_stuck (hlasting.capacity.symm ▸ hcapacity) hstuck hprocess
      by_cases hopen : process.phase.isOpen = true
      · -- it would wait for more, with a close taken from each of its ports
        exfalso
        obtain ⟨hphase, hin⟩ := hwaits hopen
        obtain ⟨s, hs⟩ : ∃ s, p.stages[k]? = some s := by
          cases hs : p.stages[k]? with
          | none => cases (hx.getElem?_eq_none hs).symm.trans hprocess
          | some s => exact ⟨s, rfl⟩
        obtain ⟨process', hprocess', hfollows⟩ := hx.follows hs
        rw [hprocess] at hprocess'
        cases hprocess'
        have htakings := hfollows.inbox hopen
        rw [hin, List.append_nil] at htakings
        refine Stage.not_running_of_closes (Plan.ports_pos h (List.mem_of_getElem? hs)) ?_
          ((hfollows.progress (hunaborted process (List.mem_of_getElem? hprocess))).1 hphase)
        intro port hport
        rw [htakings]
        exact hx.close_mem_arrivals h hclosed hbefore hs hport
      · rw [Process.hasEnded]
        cases hphase : process.phase with
        | closed failure => exact List.isEmpty_iff.2 hout
        | aborted => exact absurd hphase (hunaborted process (List.mem_of_getElem? hprocess))
        | _ =>
          rw [hphase] at hopen
          exact absurd rfl hopen
  refine hexited (List.all_eq_true.2 fun process hprocess => ?_)
  obtain ⟨k, hk⟩ := List.mem_iff_getElem?.1 hprocess
  exact Process.hasExited_of_hasEnded (hended k process hk)

end Execution

namespace Plan

/-- A plan does not get stuck on its inboxes, whatever room they have: once every source has been
given a close, some stage can make a step until all have exited. The step sends or takes a message,
or is one of a stage that has ended and has only to leave. -/
theorem exists_step_of_not_exited (h : ofBlueprint b settings = .ok p) {capacity : Nat}
    (hcapacity : 1 ≤ capacity) {given : Nat → List Message} {moves : List Move} {x : Execution}
    (hrun : (Execution.start { p.network with capacity } given).run moves = some x)
    (hclosed : ∀ inlet ∈ p.inlets, .fed inlet.process .close ∈ x.log)
    (hexited : x.network.hasExited = false) (now : Instant) :
    ∃ k process, x.network.processes[k]? = some process ∧ (x.network.step? now k).isSome ∧
      (process.events now k ≠ [] ∨
        process.outbox = [] ∧ process.phase.isOpen = true ∧ process.phase ≠ .running) := by
  have hstart : (Execution.start { p.network with capacity } given).Reached
      { p.network with capacity } given := Execution.reached_start p.isNew_of_mem_network
  have hreached := hstart.run hrun
  have hx : x.Reached p.network given :=
    ⟨hreached.processes, hreached.actors, hreached.feeds, hreached.results⟩
  have hlasting : x.Lasting capacity := by
    refine Execution.Lasting.run ⟨rfl, ?_⟩ hrun
    rintro ⟨process, hprocess, haborted⟩
    cases (p.isNew_of_mem_network process hprocess).phase.symm.trans haborted
  obtain ⟨k, hk⟩ : ∃ k, (x.network.step? now k).isSome := by
    by_contra hno
    have hstuck (k : Nat) : x.network.step? now k = none :=
      Option.not_isSome_iff_eq_none.1 fun hk => hno ⟨k, hk⟩
    rw [hx.hasExited_of_stuck h hcapacity hlasting hstuck hclosed] at hexited
    cases hexited
  obtain ⟨process, hprocess, hacts⟩ := Network.exists_process_of_isSome_step? hk
  exact ⟨k, process, hprocess, hk, hacts⟩

/-- A source whose two readers feed a union. -/
def diamond : Blueprint :=
  ⟨"p", [⟨"s", .source ⟨none, none, none, .empty, none⟩, []⟩, ⟨"a", .cache ⟨none⟩, ["s"]⟩,
    ⟨"c", .cache ⟨none⟩, ["s"]⟩, ⟨"u", .union ⟨none⟩, ["a", "c"]⟩]⟩

def planOfDiamond : Plan :=
  ⟨"p", .standard, [⟨"s", "s", .source ⟨none, none, none, .empty, none⟩, []⟩,
    ⟨"a", "a", .cache ⟨none⟩, [0]⟩, ⟨"c", "c", .cache ⟨none⟩, [0]⟩,
    ⟨"u", "u", .union ⟨none⟩, [1, 2]⟩], ["a", "c"]⟩

/-- The source waits for its first reader to take the batch before it can send it the close. -/
theorem exists_step_of_not_exited_diamond :
    let given (k : Nat) : List Message :=
      if k = 0 then [.batch ⟨"m", ∅, ["v"], [⟨⟨1⟩, [.null]⟩], none⟩, .close] else []
    let moves : List Move := [.feed 0, .step 0 .epoch, .feed 0] ++ List.replicate 4 (.step 0 .epoch)
    ∃ x, (Execution.start { planOfDiamond.network with capacity := 1 } given).run moves = some x ∧
      x.network.hasExited = false ∧ (x.network.step? .epoch 0).isNone ∧
      ∃ k, (x.network.step? .epoch k).isSome := by
  intro given moves
  have hplan : ofBlueprint diamond .standard = .ok planOfDiamond := by
    with_unfolding_all rfl
  have hruns : ∃ x, (Execution.start { planOfDiamond.network with capacity := 1 } given).run moves =
      some x ∧ (!x.network.hasExited && (x.network.step? .epoch 0).isNone &&
        (fedTo 0 x.log).any (·.isClose)) = true := by
    rw [← Option.any_eq_true]
    with_unfolding_all decide
  obtain ⟨x, hx, hstate⟩ := hruns
  rw [Bool.and_eq_true, Bool.and_eq_true, Bool.not_eq_true'] at hstate
  obtain ⟨⟨hexited, hwaits⟩, hclose⟩ := hstate
  have hclosed : ∀ inlet ∈ planOfDiamond.inlets, .fed inlet.process .close ∈ x.log := by
    intro inlet hinlet
    rw [List.mem_singleton.1 hinlet]
    obtain ⟨m, hm, hmclose⟩ := List.any_eq_true.1 hclose
    cases m with
    | close => exact mem_fedTo.1 hm
    | batch b => cases hmclose
    | barrier t => cases hmclose
  obtain ⟨k, -, -, hk, -⟩ :=
    exists_step_of_not_exited hplan (Nat.le_refl 1) hx hclosed hexited .epoch
  exact ⟨x, hx, hexited, hwaits, k, hk⟩

end Plan

end SeriesPipeline
