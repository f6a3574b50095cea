import SeriesPipeline.Proofs.Plan.Flow
import SeriesPipeline.Proofs.Stage.Rows

/-!
# Promises on all edges

A stage sends what keeps its promises if what arrives at it does, so from the sources on all stages
of a plan keep theirs, in every execution. This holds of barriers that cut no window and no bucket.
A barrier inside of a window is passed on at once, and the rows of the window come after it.
-/

namespace SeriesPipeline

variable {times : Instant → Prop}

namespace Operator

variable {kind : NodeKind} {task node : String} {settings : Settings} {b : Batch}

theorem uncut_ofNode (h : Blueprint.Sound kind)
    (havoids : ∀ w, kind = .window w → ∀ t, times t →
      Windowing.Avoids w.period w.every w.grouping.bucket t) :
    (ofNode task node settings kind).Uncut times := by
  cases kind with
  | window w => exact ⟨h.1, h.2, havoids w rfl, Windowing.allPanes_empty⟩
  | join j => exact Joining.allParts_of_pending_eq rfl
  | union u => exact Merging.allParts_of_pending_eq rfl
  | _ => trivial

/-- Only a source takes batches that may be out of order. -/
theorem trusts_ofNode (hwhole : b.Whole times) (h : (∀ n, kind ≠ .source n) → b.Uncut times) :
    (ofNode task node settings kind).Trusts times b := by
  cases kind with
  | source s => exact hwhole
  | _ => exact h nofun

end Operator

namespace Plan

/-- No window of the plan and no bucket is cut by `t`. -/
def Avoids (p : Plan) (t : Instant) : Prop :=
  ∀ s ∈ p.stages, ∀ w, s.kind = .window w →
    Windowing.Avoids w.period w.every w.grouping.bucket t

end Plan

/-- On an outlet goes what is broadcast, if it is an outlet at all. -/
theorem sublist_sentOn_broadcast {p : Process} (houtlets : p.outlets.Nodup) (outlet : Outlet)
    (messages : List Message) : (sentOn outlet (p.broadcast messages)).Sublist messages := by
  rw [sentOn_broadcast]
  obtain hcount | hcount := Nat.le_one_iff_eq_zero_or_eq_one.1
    (List.nodup_iff_count_le_one.1 houtlets outlet)
  · have hnone : messages.flatMap (List.replicate 0) = [] :=
      List.flatMap_eq_nil_iff.2 fun _ _ => rfl
    rw [hcount, hnone]
    exact List.nil_sublist messages
  · have hall : messages.flatMap (List.replicate 1) = messages := List.flatMap_singleton' messages
    rw [hcount, hall]

/-- What has been sent on an outlet so far is part of what comes of the whole course. -/
theorem Process.Follows.sublist_sentOn_sendings {start p : Process} {history : List Incident}
    (h : start.Follows history p) (houtlets : start.outlets.Nodup) (outlet : Outlet) :
    (sentOn outlet (sendings history)).Sublist
      ((start.courseOf history).reaction.sent ++ [.close]) := by
  have hbegins := ((List.prefix_append _ _).trans h.sent).sublist
  exact ((hbegins.filter _).map _).trans (sublist_sentOn_broadcast houtlets outlet _)

namespace Execution

variable {b : Blueprint} {settings : Settings} {p : Plan} {given : Nat → List Message}
  {x : Execution}

section Honesty

variable (h : Plan.ofBlueprint b settings = .ok p) (hfeeds : p.Feeds given)
  (hgiven : ∀ k, Honest times (Batch.Whole times) (given k)) (hx : x.Reached p.network given)
include h hfeeds hgiven hx

/-- What arrives at a stage keeps its promises if the stages before it keep theirs. -/
theorem honest_arrivals {k : Nat} {s : PlannedStage} (hs : p.stages[k]? = some s)
    (hbefore : ∀ i < k, ∀ outlet,
      Honest times (Batch.Uncut times) (sentOn outlet (sendings (historyOf i x.log))))
    (port : Nat) : Honest times ((p.process k s).stage.operator.Trusts times)
      (messagesAt port (arrivals (historyOf k x.log))) := by
  by_cases hinputs : s.inputs = []
  · have hbegins := hx.arrivals_of_source hs hinputs
    have hsublist := (hbegins.sublist.filter (·.port = port)).map (·.message)
    have hstream := messagesAt_map port 0 (given k)
    have htrusted : Honest times ((p.process k s).stage.operator.Trusts times) (given k) := by
      refine ⟨(hgiven k).keeps, fun b hb => ?_, (hgiven k).barriers⟩
      obtain ⟨s', n, hs', hn⟩ := Plan.exists_source_of_mem_inlets (hfeeds k (List.ne_nil_of_mem hb))
      rw [hs] at hs'
      cases hs'
      exact Operator.trusts_ofNode ((hgiven k).batches b hb) fun hother => absurd hn (hother n)
    refine Honest.sublist htrusted (hsublist.trans ?_)
    show (messagesAt port ((given k).map (⟨0, ·⟩))).Sublist (given k)
    rw [hstream]
    split
    · exact List.Sublist.refl _
    · exact List.nil_sublist _
  · have hnone : given k = [] := hfeeds.eq_nil h hs hinputs
    by_cases harrived : ∃ e ∈ arrivals (historyOf k x.log), e.port = port
    · obtain ⟨e, he, rfl⟩ := harrived
      obtain ⟨i, hinput, hlt⟩ := hx.port_lt hs hnone he
      -- a port of an inner stage gets what one outlet of one earlier stage has sent
      rw [hx.messagesAt_arrivals hs hnone hinput hlt]
      exact (hbefore i hlt _).imp fun b hb => Operator.trusts_ofNode hb.whole fun _ => hb
    · have hnil : messagesAt port (arrivals (historyOf k x.log)) = [] := by
        rw [messagesAt, List.filter_eq_nil_iff.2 fun e he hport =>
          harrived ⟨e, he, of_decide_eq_true hport⟩]
        rfl
      rw [hnil]
      exact .nil

theorem honest_sendings (havoids : ∀ t, times t → p.Avoids t) {k : Nat} {s : PlannedStage}
    (hs : p.stages[k]? = some s) (outlet : Outlet) :
    Honest times (Batch.Uncut times) (sentOn outlet (sendings (historyOf k x.log))) := by
  -- stages read from stages before them only
  induction k using Nat.strong_induction_on generalizing s outlet with
  | _ k ih =>
    have hbefore : ∀ i < k, ∀ outlet,
        Honest times (Batch.Uncut times) (sentOn outlet (sendings (historyOf i x.log))) := by
      intro i hlt outlet
      have hlength := Nat.lt_trans hlt (List.getElem?_eq_some_iff.1 hs).1
      exact ih i hlt (List.getElem?_eq_getElem hlength) outlet
    obtain ⟨process, -, hfollows⟩ := hx.follows hs
    have hmem := List.mem_of_getElem? hs
    have hoperator : (p.process k s).stage.operator.Uncut times :=
      Operator.uncut_ofNode (Plan.sound_of_mem_stages h hmem)
        fun w hw t ht => havoids t ht s hmem w hw
    have htaken : ∀ port, Honest times ((p.process k s).stage.operator.Trusts times)
        (messagesAt port (takings (historyOf k x.log))) := fun port =>
      (honest_arrivals h hfeeds hgiven hx hs hbefore port).sublist
        ((hfollows.taken.sublist.filter _).map _)
    have hsent := (Stage.honest_course .epoch rfl hoperator htaken).append_close
    exact hsent.sublist (hfollows.sublist_sentOn_sendings (Plan.nodup_outletsFrom _ _) outlet)

end Honesty

end Execution

namespace Plan

/-- On every edge of a plan, at any point of any execution, no batch with a row earlier than a
barrier has come after the barrier, if that is so of what the sources are given, and no barrier that
they are given cuts a window or a bucket of the plan, or a window with which a batch is given. -/
theorem edges_keep_barriers {b : Blueprint} {settings : Settings} {p : Plan}
    (h : ofBlueprint b settings = .ok p) {given : Nat → List Message} (hfeeds : p.Feeds given)
    (hgiven : ∀ k, (given k).Pairwise (Message.Keeps fun t b => b.From t))
    (hwhole : ∀ k b, .batch b ∈ given k → b.Whole fun t => ∃ k, .barrier t ∈ given k)
    (havoids : ∀ k t, .barrier t ∈ given k → p.Avoids t) {moves : List Move} {x : Execution}
    (hrun : (Execution.start p.network given).run moves = some x) (k : Nat) (outlet : Outlet) :
    (sentOn outlet (sendings (historyOf k x.log))).Pairwise
      (Message.Keeps fun t b => b.From t) := by
  have hreached := (Execution.reached_start p.isNew_of_mem_network).run hrun
  cases hs : p.stages[k]? with
  | none =>
    rw [(hreached.idle hs).1]
    exact .nil
  | some s =>
    exact (Execution.honest_sendings h hfeeds
      (fun k => ⟨hgiven k, hwhole k, fun t ht => ⟨k, ht⟩⟩) hreached
      (fun t ⟨k, ht⟩ => havoids k t ht) hs outlet).keeps

/-- A source with a period of 10 that an output reads from. -/
def sourceByTens : Blueprint :=
  ⟨"p", [⟨"s", .source ⟨none, none, some ⟨10⟩, .empty, none⟩, []⟩, ⟨"o", .output ⟨"out"⟩, ["s"]⟩]⟩

def planOfTens : Plan :=
  ⟨"p", .standard, [⟨"s", "s", .source ⟨none, none, some ⟨10⟩, .empty, none⟩, []⟩,
    ⟨"s/group_by", "s", .window ⟨⟨10⟩, none, .empty⟩, [0]⟩,
    ⟨"o", "o", .output ⟨"out"⟩, [1]⟩], ["out"]⟩

/-- A batch of one row. -/
def batchOf (t : Instant) : Batch := ⟨"m", ∅, ["v"], [⟨t, [.null]⟩], none⟩

/-- The messages are for the source. -/
def givenToTens (messages : List Message) (k : Nat) : List Message :=
  if k = 0 then messages else []

theorem givenToTens_of {P : List Message → Prop} {messages : List Message} (h : P messages)
    (hnil : P []) (k : Nat) : P (givenToTens messages k) := by
  rw [givenToTens]
  split
  · exact h
  · exact hnil

theorem feeds_givenToTens (messages : List Message) : planOfTens.Feeds (givenToTens messages) := by
  intro k hk
  by_cases hzero : k = 0
  · rw [hzero]
    exact List.mem_cons_self
  · exact absurd (if_neg hzero) hk

theorem avoids_planOfTens {t : Instant} (h : 10 ∣ t.toInt) : planOfTens.Avoids t := by
  intro s hs w hw
  rcases List.mem_cons.1 hs with rfl | hs
  · cases hw
  · rcases List.mem_cons.1 hs with rfl | hs
    · cases hw
      exact Windowing.avoids_of_dvd (by decide) h
    · rw [List.mem_singleton.1 hs] at hw
      cases hw

/-- Five messages for the source, and then one stage after the other as far as it gets. -/
def tensMoves : List Move :=
  List.replicate 5 (.feed 0) ++ List.replicate 11 (.step 0 .epoch) ++
    List.replicate 11 (.step 1 .epoch)

/-- The barriers stand at window ends. -/
theorem edges_keep_barriers_sourceByTens :
    let given := givenToTens [.batch (batchOf ⟨1⟩), .barrier ⟨10⟩, .batch (batchOf ⟨12⟩),
      .barrier ⟨20⟩, .close]
    ∃ x, (Execution.start planOfTens.network given).run tensMoves = some x ∧
      (sentOn ⟨0, 0⟩ (sendings (historyOf 1 x.log))).length = 5 ∧
      ∀ k outlet, (sentOn outlet (sendings (historyOf k x.log))).Pairwise
        (Message.Keeps fun t b => b.From t) := by
  intro given
  have hplan : ofBlueprint sourceByTens .standard = .ok planOfTens := by
    with_unfolding_all rfl
  have hwindow : ∀ k, ∀ m ∈ given k, ∀ b ∈ m.batch?, b.window = none :=
    givenToTens_of (P := fun l => ∀ m ∈ l, ∀ b ∈ m.batch?, b.window = none) (by decide) nofun
  have hends : ∀ k, ∀ m ∈ given k, ∀ t ∈ m.barrier?, 10 ∣ t.toInt :=
    givenToTens_of (P := fun l => ∀ m ∈ l, ∀ t ∈ m.barrier?, 10 ∣ t.toInt) (by decide) nofun
  have hruns : ∃ x, (Execution.start planOfTens.network given).run tensMoves = some x ∧
      decide ((sentOn ⟨0, 0⟩ (sendings (historyOf 1 x.log))).length = 5) = true := by
    rw [← Option.any_eq_true]
    with_unfolding_all decide
  obtain ⟨x, hx, hlength⟩ := hruns
  refine ⟨x, hx, of_decide_eq_true hlength, edges_keep_barriers hplan (feeds_givenToTens _)
    (givenToTens_of (by decide) .nil) (fun k b hb w hw => ?_) (fun k t ht => ?_) hx⟩
  · cases (hwindow k _ hb b rfl).symm.trans hw
  · exact avoids_planOfTens (hends k _ ht t rfl)

/-- With a barrier inside of a window, the stage that windows passes the barrier on before the rows
that the window has had before it. -/
theorem edge_breaks_barrier_in_window :
    let given := givenToTens [.batch (batchOf ⟨1⟩), .barrier ⟨5⟩, .barrier ⟨10⟩, .close]
    let moves := List.replicate 4 (.feed 0) ++ List.replicate 9 (.step 0 .epoch) ++
      List.replicate 9 (.step 1 .epoch)
    ofBlueprint sourceByTens .standard = .ok planOfTens ∧ planOfTens.Feeds given ∧
      (∀ k, (given k).Pairwise (Message.Keeps fun t b => b.From t)) ∧
      ∃ x, (Execution.start planOfTens.network given).run moves = some x ∧
        ¬ (sentOn ⟨0, 0⟩ (sendings (historyOf 1 x.log))).Pairwise
          (Message.Keeps fun t b => b.From t) := by
  intro given moves
  have hplan : ofBlueprint sourceByTens .standard = .ok planOfTens := by
    with_unfolding_all rfl
  have hruns : ∃ x, (Execution.start planOfTens.network given).run moves = some x ∧
      decide (¬ (sentOn ⟨0, 0⟩ (sendings (historyOf 1 x.log))).Pairwise
        (Message.Keeps fun t b => b.From t)) = true := by
    rw [← Option.any_eq_true]
    with_unfolding_all decide
  obtain ⟨x, hx, hbroken⟩ := hruns
  exact ⟨hplan, feeds_givenToTens _, givenToTens_of (by decide) .nil, x, hx,
    of_decide_eq_true hbroken⟩

end Plan

end SeriesPipeline
