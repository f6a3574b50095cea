import SeriesPipeline.Proofs.Plan.Flow
import SeriesPipeline.Proofs.Stage.Guarded

/-!
# Guarded executions

The checks of a blueprint leave its joins with an alias for every port, and its windows and buckets
with a length. Sources pass on none but well-formed batches, and no stage makes others out of them.
So in every state that an execution of a plan reaches, whatever waits for a stage can be taken in
guarded form: every position is in range, and every divisor is positive.
-/

namespace SeriesPipeline

/-- A source takes any batch, and all other stages take those that are well-formed. -/
def PlannedStage.Takes (s : PlannedStage) (b : Batch) : Prop :=
  (∀ n, s.kind ≠ .source n) → b.WellFormed

namespace Plan

variable {b : Blueprint} {settings : Settings} {p : Plan} {given : Nat → List Message} {k : Nat}
  {s : PlannedStage}

/-- A join has an alias for every stage that it reads from. -/
theorem length_aliases_of_mem_stages (h : ofBlueprint b settings = .ok p) (hs : s ∈ p.stages) :
    ∀ j, s.kind = .join j → s.inputs.length ≤ j.aliases.length := by
  refine forall_mem_stages
    (P := fun s => ∀ j, s.kind = .join j → s.inputs.length ≤ j.aliases.length) h ?_ s hs
  intro n _ hvalid number inputs hlength s hs j hkind
  rw [stagesOf_eq, List.mem_cons, Option.mem_toList] at hs
  rcases hs with rfl | hs
  · have haliases : n.kind.Valid n.inputs.length := hvalid
    rw [show n.kind = .join j from hkind] at haliases
    exact hlength.trans haliases.1.ge
  · obtain ⟨w, -, rfl⟩ := Option.map_eq_some_iff.1 hs
    cases hkind

theorem ready_process (h : ofBlueprint b settings = .ok p) (hs : p.stages[k]? = some s) :
    (p.process k s).stage.Ready s.ports s.Takes := by
  have hmem := List.mem_of_getElem? hs
  have haliases := length_aliases_of_mem_stages h hmem
  refine ⟨⟨Operator.shaped_ofNode (sound_of_mem_stages h hmem), ?_, fun b hb =>
    Operator.suits_ofNode hb False.elim False.elim⟩, List.length_replicate⟩
  show (Operator.ofNode p.name s.node p.settings s.kind).HasPorts s.ports
  rw [PlannedStage.ports]
  cases hkind : s.kind with
  | join j => exact haliases j hkind
  | _ => trivial

/-- Only sources are given anything. -/
theorem Feeds.eq_nil_of_kind (hfeeds : p.Feeds given) (hs : p.stages[k]? = some s)
    (hother : ∀ n, s.kind ≠ .source n) : given k = [] := by
  by_contra hgiven
  obtain ⟨s', n, hs', hn⟩ := exists_source_of_mem_inlets (hfeeds k hgiven)
  rw [hs] at hs'
  cases hs'
  exact hother n hn

end Plan

namespace Execution

variable {b : Blueprint} {settings : Settings} {p : Plan} {given : Nat → List Message}
  {x : Execution}

section Reached

variable (h : Plan.ofBlueprint b settings = .ok p) (hfeeds : p.Feeds given)
  (hx : x.Reached p.network given)
include h hfeeds hx

omit h in
/-- What arrives at a stage suits it, if the stages before it have sent well-formed batches. -/
theorem takes_of_mem_arrivals {k : Nat} {s : PlannedStage} (hs : p.stages[k]? = some s)
    (hbefore : ∀ i < k, ∀ outlet b, .sent i outlet (.batch b) ∈ x.log → b.WellFormed)
    {e : Envelope} (he : e ∈ arrivals (historyOf k x.log)) :
    ∀ b ∈ e.message.batch?, s.Takes b := by
  intro b hb hother
  obtain ⟨m, hfed, -⟩ | ⟨i, outlet, m, hsent, hlt, rfl⟩ := mem_arrivals he
  · exact absurd hfed (hx.fed_notMem (hfeeds.eq_nil_of_kind hs hother) m)
  · obtain rfl : m = .batch b := Message.eq_batch_of_mem hb
    exact hbefore i (by omega) outlet b hsent

/-- All batches that are sent in a plan are well-formed. -/
theorem wellFormed_of_sent {i : Nat} {outlet : Outlet} {b : Batch}
    (hsent : .sent i outlet (.batch b) ∈ x.log) : b.WellFormed := by
  -- stages read from stages before them only
  induction i using Nat.strong_induction_on generalizing outlet b with
  | _ i ih =>
    obtain ⟨s, hs⟩ := hx.exists_stage hsent rfl
    obtain ⟨process, -, hfollows⟩ := hx.follows hs
    have htaken : ∀ e ∈ takings (historyOf i x.log), ∀ b ∈ e.message.batch?, s.Takes b :=
      fun e he => takes_of_mem_arrivals hfeeds hx hs (fun j hlt _ _ hsent => ih j hlt hsent)
        (hfollows.taken.subset he)
    obtain ⟨-, hwellFormed⟩ := (Plan.ready_process h hs).course .epoch htaken
    have hbegins := (List.prefix_append _ _).trans hfollows.sent
    obtain ⟨m, hm, hout⟩ := List.mem_flatMap.1 (hbegins.subset (mem_sendings.2 hsent))
    obtain ⟨_, -, heq⟩ := List.mem_map.1 hout
    cases heq
    rcases List.mem_append.1 hm with hm | hm
    · exact hwellFormed b (List.mem_filterMap.2 ⟨_, hm, rfl⟩)
    · cases List.mem_singleton.1 hm

/-- A stage takes part in an execution only by envelopes for its ports. -/
theorem port_lt_ports {k : Nat} {s : PlannedStage} (hs : p.stages[k]? = some s) {e : Envelope}
    (he : e ∈ arrivals (historyOf k x.log)) : e.port < s.ports := by
  rw [PlannedStage.ports]
  by_cases hsource : ∃ n, s.kind = .source n
  · obtain ⟨n, hn⟩ := hsource
    have hinputs := (Plan.inputs_of_mem_stages h (List.mem_of_getElem? hs)).1 n hn
    obtain ⟨m, -, rfl⟩ := List.mem_map.1 ((hx.arrivals_of_source hs hinputs).subset he)
    rw [hn]
    exact Nat.zero_lt_one
  · have hother : ∀ n, s.kind ≠ .source n := fun n hn => hsource ⟨n, hn⟩
    obtain ⟨i, hi, -⟩ := hx.port_lt hs (hfeeds.eq_nil_of_kind hs hother) he
    have hlt := (List.getElem?_eq_some_iff.1 hi).1
    cases hkind : s.kind with
    | source n => exact absurd hkind (hother n)
    | _ => exact hlt

end Reached

end Execution

namespace Plan

/-- In every state that an execution of a plan reaches, whatever it is given, a process takes any
envelope that waits for it in guarded form: the envelope is for one of its ports, every position
that its stage reads or writes is in range, and every divisor is positive. -/
theorem reached_stages_stay_in_range {b : Blueprint} {settings : Settings} {p : Plan}
    (h : ofBlueprint b settings = .ok p) {given : Nat → List Message} (hfeeds : p.Feeds given)
    {moves : List Move} {x : Execution}
    (hrun : (Execution.start p.network given).run moves = some x) {k : Nat} {process : Process}
    (hprocess : x.network.processes[k]? = some process)
    (hopen : process.phase.isOpen = true) {e : Envelope} (he : e ∈ process.inbox) (now : Instant) :
    process.stage.receive? now e = some (process.stage.receive now e) := by
  have hx := (Execution.reached_start p.isNew_of_mem_network).run hrun
  cases hs : p.stages[k]? with
  | none =>
    rw [hx.getElem?_eq_none hs] at hprocess
    cases hprocess
  | some s =>
    obtain ⟨process', hprocess', hfollows⟩ := hx.follows hs
    rw [hprocess] at hprocess'
    cases hprocess'
    have harrived : e ∈ arrivals (historyOf k x.log) :=
      hfollows.inbox hopen ▸ List.mem_append_right _ he
    have htakes : ∀ e ∈ arrivals (historyOf k x.log), ∀ b ∈ e.message.batch?, s.Takes b :=
      fun e he => Execution.takes_of_mem_arrivals hfeeds hx hs
        (fun _ _ _ _ hsent => Execution.wellFormed_of_sent h hfeeds hx hsent) he
    have hready := ((ready_process h hs).course .epoch
      fun e he => htakes e (hfollows.taken.subset he)).1
    rw [hfollows.stage]
    exact hready.receive? now (Execution.port_lt_ports h hfeeds hx hs harrived)
      (htakes e harrived)

/-- A join of two sources. -/
def joinOfTwo : Blueprint :=
  ⟨"p", [⟨"s", .source ⟨none, none, none, .empty, none⟩, []⟩,
    ⟨"t", .source ⟨none, none, none, .empty, none⟩, []⟩,
    ⟨"j", .join ⟨["x", "y"], [], ∅, none, none⟩, ["s", "t"]⟩]⟩

def planOfJoin : Plan :=
  ⟨"p", .standard, [⟨"t", "t", .source ⟨none, none, none, .empty, none⟩, []⟩,
    ⟨"s", "s", .source ⟨none, none, none, .empty, none⟩, []⟩,
    ⟨"j", "j", .join ⟨["x", "y"], [], ∅, none, none⟩, [1, 0]⟩], []⟩

/-- The join has a part of two rows for its first port. The part of one row that waits for its
second port completes the alignment. -/
theorem reached_stages_stay_in_range_joinOfTwo :
    let part (times : List Int64) : Message :=
      .batch ⟨"m", ∅, ["v"], times.map (⟨⟨·⟩, [.null]⟩), none⟩
    let given (k : Nat) : List Message := if k < 2 then [part ([1, 5].take (k + 1))] else []
    let moves : List Move := [.feed 0, .feed 1, .step 1 .epoch, .step 1 .epoch, .step 2 .epoch,
      .step 0 .epoch, .step 0 .epoch]
    ∃ x process, (Execution.start planOfJoin.network given).run moves = some x ∧
      x.network.processes[2]? = some process ∧ process.inbox.length = 1 ∧
      ∀ e ∈ process.inbox, (process.stage.receive .epoch e).2.1.sent.length = 1 ∧
        process.stage.receive? .epoch e = some (process.stage.receive .epoch e) := by
  intro part given moves
  have hplan : ofBlueprint joinOfTwo .standard = .ok planOfJoin := by
    with_unfolding_all rfl
  have hfeeds : planOfJoin.Feeds given := by
    intro k hk
    by_cases hlt : k < 2
    · obtain rfl | rfl : k = 0 ∨ k = 1 := by omega
      · exact List.mem_cons_self
      · exact List.mem_cons_of_mem _ List.mem_cons_self
    · exact absurd (if_neg hlt) hk
  have hruns : ∃ x, (Execution.start planOfJoin.network given).run moves = some x ∧
      (x.network.processes[2]?).any (fun process => process.phase.isOpen &&
        decide (process.inbox.length = 1 ∧
          ∀ e ∈ process.inbox, (process.stage.receive .epoch e).2.1.sent.length = 1)) = true := by
    rw [← Option.any_eq_true]
    with_unfolding_all decide
  obtain ⟨x, hx, hprocess⟩ := hruns
  obtain ⟨process, hprocess, hwaits⟩ := (Option.any_eq_true _ _).1 hprocess
  obtain ⟨hopen, hinbox⟩ := Bool.and_eq_true_iff.1 hwaits
  obtain ⟨hlength, hjoins⟩ := of_decide_eq_true hinbox
  exact ⟨x, process, hx, hprocess, hlength, fun e he => ⟨hjoins e he,
    reached_stages_stay_in_range hplan hfeeds hx hprocess hopen he .epoch⟩⟩

end Plan

end SeriesPipeline
