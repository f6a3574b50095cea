import SeriesPipeline.Proofs.Plan.Promises
import SeriesPipeline.Proofs.Replay.Sequence
import SeriesPipeline.Proofs.Stage.Ports
import SeriesPipeline.Proofs.Windowing.Lateness

/-!
# Replays make no row late

The barriers of a replay are first times of batches, and a source passes no batch on whose rows are
not in order. So no row that comes from a source is earlier than a barrier before it, and a stage
that windows right after the source finds none of them late.
-/

namespace SeriesPipeline

/-! ## Sources -/

/-- What an intake passes on is in order, so a batch that starts in time is all in time. -/
theorem Operator.keeps_messages_intake (now : Instant) (i : Intake) {requests : List Request}
    (h : requests.Pairwise (Request.Keeps fun t b => b.OrderedFrom t)) :
    ((intake i).messages now requests).Pairwise (Message.Keeps fun t b => b.From t) := by
  refine pairwise_messages_of_step (R := fun t b => b.From t) (fun op => op = .intake i)
    (fun _ => True) (fun _ _ => True) (fun t r => ∀ e ∈ r.batch?, e.2.OrderedFrom t)
    ?_ rfl (fun _ _ => trivial) (h.imp fun hkeeps t ht => hkeeps t ht)
  rintro _ op' r out rfl - hanswer
  cases r with
  | batch port b =>
    obtain ⟨rfl, hmapped⟩ := Prod.mk.inj hanswer
    obtain ⟨result, hresult, rfl⟩ := map_eq_ok.1 hmapped
    refine ⟨rfl, nofun, fun t _ hordered => ⟨trivial, fun b' hb' => ?_⟩⟩
    obtain rfl := Option.mem_toList.1 hb'
    obtain ⟨hconsistent, -⟩ := Intake.of_onBatch_eq_some hresult
    exact (Intake.thins_onBatch hresult).from
      (hordered _ rfl (List.pairwise_map.2 hconsistent.ordered))
  | watermark t =>
    cases hanswer
    exact ⟨rfl, fun _ _ => trivial, fun _ _ _ => ⟨trivial, nofun⟩⟩
  | close =>
    cases hanswer
    exact ⟨rfl, nofun, fun _ _ _ => ⟨trivial, nofun⟩⟩

theorem Stage.keeps_course_intake (now : Instant) {s : Stage} {i : Intake} {ports : Nat}
    {taken : List Envelope} (hmarks : s.marks = .new ports) (hop : s.operator = .intake i)
    (htaken : ∀ port, (messagesAt port taken).Pairwise (Message.Keeps fun t b => b.OrderedFrom t)) :
    (s.course now taken).reaction.sent.Pairwise (Message.Keeps fun t b => b.From t) := by
  have hrequests := keeps_requests Batch.antitone_orderedFrom ports htaken
  refine List.Pairwise.sublist (s.sent_course taken).sublist ?_
  rw [hop, hmarks]
  exact Operator.keeps_messages_intake now i hrequests

namespace Execution

variable {b : Blueprint} {settings : Settings} {p : Plan} {given : Nat → List Message}
  {x : Execution}

section Sources

variable (h : Plan.ofBlueprint b settings = .ok p) (hx : x.Reached p.network given)
  (hgiven : ∀ k, (given k).Pairwise (Message.Keeps fun t b => b.OrderedFrom t))
include h hx hgiven

/-- No row that a source sends is earlier than a barrier that it has sent before. -/
theorem Reached.keeps_sendings_of_source {i : Nat} {t : PlannedStage} {n : SourceNode}
    (ht : p.stages[i]? = some t) (hkind : t.kind = .source n) (outlet : Outlet) :
    (sentOn outlet (sendings (historyOf i x.log))).Pairwise
      (Message.Keeps fun t b => b.From t) := by
  obtain ⟨process, -, hfollows⟩ := hx.follows ht
  have hinputs := (Plan.inputs_of_mem_stages h (List.mem_of_getElem? ht)).1 n hkind
  have htaken (port : Nat) : (messagesAt port (takings (historyOf i x.log))).Pairwise
      (Message.Keeps fun t b => b.OrderedFrom t) := by
    have hsublist : (takings (historyOf i x.log)).Sublist ((given i).map (⟨0, ·⟩)) :=
      hfollows.taken.sublist.trans (hx.arrivals_of_source ht hinputs).sublist
    refine List.Pairwise.sublist ((hsublist.filter _).map _) ?_
    show (messagesAt port ((given i).map (⟨0, ·⟩))).Pairwise _
    rw [messagesAt_map]
    split
    · exact hgiven i
    · exact .nil
  have hop : (p.process i t).stage.operator = .intake ⟨n.filter⟩ :=
    congrArg (Operator.ofNode p.name t.node p.settings) hkind
  have hsent := pairwise_append_close (Stage.keeps_course_intake .epoch rfl hop htaken)
  exact hsent.sublist (hfollows.sublist_sentOn_sendings (Plan.nodup_outletsFrom _ _) outlet)

/-- A stage that windows right after a source, without a horizon, finds no row late. -/
theorem Reached.lateRows_of_window (hfeeds : p.Feeds given)
    (hhorizon : p.settings.windowHorizon = none) {k i : Nat} {s t : PlannedStage} {w : WindowNode}
    {n : SourceNode} (hs : p.stages[k]? = some s) (hwindow : s.kind = .window w)
    (hinput : i ∈ s.inputs) (ht : p.stages[i]? = some t) (hsource : t.kind = .source n) :
    ∃ process, x.network.processes[k]? = some process ∧ process.stage.id = s.id ∧
      process.stage.stats.lateRows = 0 := by
  obtain ⟨process, hprocess, hfollows⟩ := hx.follows hs
  have hmem := List.mem_of_getElem? hs
  have hcombines : s.kind.combines = false := by rw [hwindow]; rfl
  obtain ⟨input, hinputs⟩ : ∃ input, s.inputs = [input] :=
    List.length_eq_one_iff.1 (Nat.le_antisymm
      ((Plan.inputs_of_mem_stages h hmem).2 hcombines) (List.length_pos_of_mem hinput))
  obtain rfl : i = input := List.mem_singleton.1 (hinputs ▸ hinput)
  have hnone : given k = [] := hfeeds.eq_nil h hs (List.ne_nil_of_mem hinput)
  have hlt : i < k := by
    obtain ⟨nodes, producers, -, hlaid⟩ := Plan.exists_laidOut h
    exact hlaid.before k s hs i hinput
  have harrivals := hx.keeps_sendings_of_source h hgiven ht hsource ⟨k - (i + 1), 0⟩
  rw [← hx.arrivals_of_single hs hnone hinputs hlt] at harrivals
  have hop : (p.process k s).stage.operator =
      .windowing (Windowing.new w.period w.every w.grouping none) := by
    rw [← hhorizon]
    exact congrArg (Operator.ofNode p.name s.node p.settings) hwindow
  have hevery : 0 < w.every.reach := (hwindow ▸ Plan.sound_of_mem_stages h hmem).1
  have hpunctual := Stage.punctual_course .epoch rfl hop (Windowing.punctual_new w.grouping hevery)
    (harrivals.sublist (hfollows.taken.sublist.map _))
  refine ⟨process, hprocess, ?_, ?_⟩
  · rw [hfollows.stage]
    exact Stage.id_course ..
  · rw [hfollows.stage]
    exact hpunctual.lateRows

end Sources

end Execution

/-! ## Replays -/

namespace Drive

variable {b : Blueprint} {settings : Settings} {p : Plan} {mode : ReplayMode} {all : List Batch}
  {d : Drive}

/-- Whatever the clock does, no call is for a time before a barrier that comes before it. -/
theorem Reads.keeps_calls {At : List Batch → Instant → Prop} (h : d.Reads At p mode all) :
    (d.calls.map Call.message).Pairwise (Message.Keeps fun t b => b.OrderedFrom t) := by
  obtain ⟨read, rest, hreads⟩ := h.reads
  obtain ⟨t, -, hcalls⟩ := hreads.isPrefix
  refine List.Pairwise.sublist (hcalls.sublist.map Call.message) ?_
  rw [List.pairwise_map]
  refine List.pairwise_append.2 ⟨?_, ?_, ?_⟩
  · exact (callsFor_keeps hreads.ascending).imp And.right
  · exact List.pairwise_pair.2 fun _ _ => nofun
  · intro c _ later hlater
    rcases List.mem_cons.1 hlater with rfl | hlater
    · exact fun _ _ => nofun
    · rw [List.mem_singleton.1 hlater]
      exact fun _ _ => nofun

theorem Delivers.feeds (h : d.Delivers p) : p.Feeds (fedTo · d.log) := by
  intro k hk
  by_contra hnot
  exact hk (List.append_eq_nil_iff.1 (h.others k hnot)).1

theorem Delivers.keeps_fedTo (h : d.Delivers p) {R : Instant → Batch → Prop}
    (hcalls : (d.calls.map Call.message).Pairwise (Message.Keeps R)) (k : Nat) :
    (fedTo k d.log).Pairwise (Message.Keeps R) := by
  by_cases hk : k ∈ p.inlets.map (·.process)
  · obtain ⟨i, hi, rfl⟩ := List.mem_map.1 hk
    exact hcalls.sublist ((h.received i hi).sublist.trans (i.messages_sublist d.calls))
  · rw [(List.append_eq_nil_iff.1 (h.others k hk)).1]
    exact .nil

/-- A replay makes no row late at a stage that windows right after a source, if windows are not
closed early. -/
theorem lateRows_eq_zero (h : Plan.ofBlueprint b settings = .ok p)
    (hhorizon : settings.windowHorizon = none) {clock : Clock} {moves : List Move}
    (hrun : (start clock (.launch p) (.new mode all)).run moves = some d) {k i : Nat}
    {s t : PlannedStage} {w : WindowNode} {n : SourceNode} (hs : p.stages[k]? = some s)
    (hwindow : s.kind = .window w) (hinput : i ∈ s.inputs) (ht : p.stages[i]? = some t)
    (hsource : t.kind = .source n) :
    ∃ stats, d.task.stats[k]? = some (s.id, stats) ∧ stats.lateRows = 0 := by
  obtain ⟨hgrows, hreads, hdelivers⟩ : d.Grows p.network ∧
      d.Reads (fun _ _ => True) p mode all ∧ d.Delivers p := by
    refine run_induction (P := fun d => d.Grows p.network ∧
      d.Reads (fun _ _ => True) p mode all ∧ d.Delivers p) (Q := fun _ => True) ?_
      (fun _ _ => trivial) ?_ hrun
    · intro d d' move _ ⟨hgrows, hreads, hdelivers⟩ hd'
      exact ⟨hgrows.moves hd',
        hreads.moves ⟨fun _ _ _ _ _ => trivial, fun _ _ _ _ _ _ _ _ => trivial⟩
          (fun _ _ _ _ => trivial) hd',
        hdelivers.moves (fun _ _ hcalls => hreads.close_notMem hcalls) hd'⟩
    · exact ⟨grows_start _ p _, reads_start trivial, delivers_start _ p _ rfl⟩
  have hsettings : p.settings = settings := by
    obtain ⟨order, -, -, rfl⟩ := Plan.of_ofBlueprint_eq_ok h
    rfl
  obtain ⟨process, hprocess, hid, hlate⟩ := hgrows.lateRows_of_window h
    (hdelivers.keeps_fedTo hreads.keeps_calls) hdelivers.feeds (hsettings ▸ hhorizon) hs hwindow
    hinput ht hsource
  refine ⟨process.stage.stats, ?_, hlate⟩
  have hstats := congrArg (Option.map fun q : Process => (q.stage.id, q.stage.stats)) hprocess
  rw [PipelineTask.stats, List.getElem?_map, ← hid]
  exact hstats

/-- The second batch starts in the first window of the first one, which has a row in the next. -/
theorem lateRows_eq_zero_overlapping :
    let moves := List.replicate 14 Move.replay ++ List.replicate 11 (.step 0) ++
      List.replicate 10 (.step 1)
    let batches := [Replay.batchAt [⟨1⟩, ⟨12⟩], Replay.batchAt [⟨3⟩]]
    ∃ d, (start ⟨⟨0⟩⟩ (.launch Plan.planOfTens) (.new .driven batches)).run moves = some d ∧
      d.outcome = some (.ok ()) ∧ ∃ stats, d.task.stats[1]? = some ("s/group_by", stats) ∧
        stats.batchesIn = 2 ∧ stats.lateRows = 0 := by
  intro moves batches
  have hplan : Plan.ofBlueprint Plan.sourceByTens .standard = .ok Plan.planOfTens := by
    with_unfolding_all rfl
  have hruns : ∃ d, (start ⟨⟨0⟩⟩ (.launch Plan.planOfTens) (.new .driven batches)).run moves =
      some d ∧ (d.outcome.any (·.toBool) && (d.task.stats[1]?).any (·.2.batchesIn = 2)) = true := by
    rw [← Option.any_eq_true]
    with_unfolding_all decide
  obtain ⟨d, hrun, hstate⟩ := hruns
  rw [Bool.and_eq_true, Option.any_eq_true, Option.any_eq_true] at hstate
  obtain ⟨⟨o, ho, hok⟩, counted, hcounted, hin⟩ := hstate
  obtain ⟨stats, hstats, hlate⟩ := lateRows_eq_zero hplan rfl hrun (k := 1) rfl rfl
    (List.mem_singleton_self 0) rfl rfl
  cases hcounted.symm.trans hstats
  cases o with
  | error cause => cases hok
  | ok => exact ⟨d, hrun, ho, stats, hstats, of_decide_eq_true hin, hlate⟩

end Drive

end SeriesPipeline
