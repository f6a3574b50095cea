import SeriesPipeline.Proofs.Joining.Streams
import SeriesPipeline.Proofs.Merging.Streams
import SeriesPipeline.Proofs.Plan.Layout
import SeriesPipeline.Proofs.Stage.Barriers
import SeriesPipeline.Proofs.Windowing.Buckets
import SeriesPipeline.Task.Basic

/-!
# Branches from sources to a join or a union

A source with a period is followed by the stage that groups its rows. While barriers stand at window
ends, whatever that stage sends keeps its barriers, buckets or not, so branches of one period can be
put together in any interleaving. A barrier between window ends breaks this: it is passed on before
the buckets that have ended by then.
-/

namespace SeriesPipeline

/-- What a stage sends when `messages` come on its first port. -/
def PlannedStage.relay (now : Instant) (task : String) (settings : Settings) (s : PlannedStage)
    (messages : List Message) : List Message :=
  ((Stage.new s.id (.ofNode task s.node settings s.kind) s.ports).run now
    (messages.map (⟨0, ·⟩))).2.1.sent

/-- What the stages of a source send in the end: each takes what the one before it sends. -/
def Node.branch (now : Instant) (task : String) (settings : Settings) (n : Node)
    (messages : List Message) : List Message :=
  (Plan.stagesOf n 0 []).foldl (fun messages s => s.relay now task settings messages) messages

namespace Windowing

/-- Windows of one length end to end, and panes of rows that they cover. -/
structure Tiles (period : Span) (op : Windowing) : Prop where
  period_eq : op.period = period
  every_eq : op.every = period
  positive : 0 < period.reach
  buckets : ∀ bucket ∈ op.grouping.bucket, 0 < bucket.reach
  panes : AllPanes (Covered period.reach period.reach) op.panes

variable {period : Span} {op op' : Windowing} {t stop : Instant} {pane b : Batch}

theorem Tiles.of_advances (h : Tiles period op) (hadvances : Advances op op')
    (hpanes : AllPanes (Covered period.reach period.reach) op'.panes) : Tiles period op' :=
  ⟨hadvances.period.trans h.period_eq, hadvances.every.trans h.every_eq, h.positive,
    hadvances.grouping ▸ h.buckets, hpanes⟩

theorem Tiles.extends (h : Tiles period op) (key : SeriesKey) (columns : List String) (row : Row)
    (hstop : stop ∈ coveringEnds op.period.reach op.every.reach row.time) :
    Extends (Covered period.reach period.reach) key columns row stop := by
  rw [h.period_eq, h.every_eq] at hstop
  exact extends_covered h.positive hstop

theorem Tiles.emittedFrom (h : Tiles period op)
    (hpane : Covered period.reach period.reach stop pane) (hb : b ∈ op.pieces stop pane) :
    EmittedFrom pane b := by
  exact emittedFrom_of_mem_pieces h.buckets (h.period_eq.symm ▸ hpane) hb

/-- The rows of a window that ends after the end `t` of another come after `t`. -/
theorem Covered.le_of_dvd {period : Int} {u : Instant} (h : Covered period period stop pane)
    (ht : period ∣ t.toInt) (hstop : t < stop) (hu : u ∈ pane.times) : t ≤ u := by
  obtain ⟨hdvd, -, hle⟩ := h.covers u hu
  have hgap : period ≤ stop.toInt - t.toInt :=
    Int.le_of_dvd (Int.sub_pos.2 hstop) (Int.dvd_sub hdvd ht)
  rw [Instant.le_def]
  omega

/-- When barriers stand at window ends, what comes of later windows is after them. -/
theorem Tiles.after_of_mem_pieces (h : Tiles period op) (ht : period.reach ∣ t.toInt)
    (hstop : t < stop) (hpane : Covered period.reach period.reach stop pane)
    (hb : b ∈ op.pieces stop pane) : b.After t := by
  have hfrom := h.emittedFrom hpane hb
  obtain ⟨w, hw, hcontains⟩ := hfrom.encloses
  obtain ⟨first, hfirst⟩ := List.exists_mem_of_ne_nil _ hfrom.nonempty
  have hmem : first.time ∈ b.times := List.mem_map_of_mem hfirst
  refine Batch.after_of_window hw (lt_of_le_of_lt ?_ (Window.contains_iff.1 (hcontains _ hmem)).2)
  exact hpane.le_of_dvd ht hstop (hfrom.mem_times hmem)

end Windowing

namespace Operator

/-- The operator groups rows into windows of one length end to end. -/
def Tiles (period : Span) (op : Operator) : Prop :=
  ∃ w, op = .windowing w ∧ w.Tiles period

variable {period : Span} {op op' : Operator} {r : Request} {out : Emitted} {now : Instant}

theorem Tiles.answer (h : op.Tiles period) (hanswer : op.answer now r = (op', .ok out)) :
    op'.Tiles period ∧ (∀ b ∈ out.batches, b.rows ≠ []) ∧
      ∀ t, op.Awaits t → period.reach ∣ t.toInt → op'.Awaits t ∧ ∀ b ∈ out.batches, b.After t := by
  obtain ⟨w, rfl, h⟩ := h
  obtain ⟨⟨w', rfl, hadvances, hpanes⟩, hout, hafter⟩ :=
    answer_of_allPanes h.panes (fun _ _ row _ _ hstop => h.extends _ _ row hstop) hanswer
  refine ⟨⟨w', rfl, h.of_advances hadvances hpanes⟩, fun b hb => ?_, fun t hawaits ht => ?_⟩
  · obtain ⟨stop, pane, hpane, hb⟩ := hout b hb
    exact (h.emittedFrom hpane hb).nonempty
  · obtain ⟨hawaits', hlater⟩ := hafter t hawaits
    refine ⟨hawaits', fun b hb => ?_⟩
    obtain ⟨stop, pane, hlt, hpane, hb⟩ := hlater b hb
    exact h.after_of_mem_pieces ht hlt hpane hb

end Operator

section Branch

variable {now : Instant} {task : String} {settings : Settings} {messages : List Message}

theorem forall_watermark_of_messages {P : Instant → Prop} (ports : Nat)
    (h : ∀ t, .barrier t ∈ messages → P t) :
    ∀ t, .watermark t ∈ (Watermarks.new ports).requests (messages.map (⟨0, ·⟩)) → P t := by
  refine forall_watermark_mem_requests (Watermarks.marked_new P ports) fun e he t ht => ?_
  obtain ⟨m, hm, rfl⟩ := List.mem_map.1 he
  cases m with
  | barrier t' =>
    cases ht
    exact h t hm
  | batch b => cases ht
  | close => cases ht

/-- Only barriers that came in go out. -/
theorem PlannedStage.of_barrier_mem_relay {s : PlannedStage} {P : Instant → Prop}
    (h : ∀ t, .barrier t ∈ messages → P t) {t : Instant}
    (ht : .barrier t ∈ s.relay now task settings messages) : P t := by
  obtain ⟨body, hsent, hbody⟩ := (Stage.new s.id (.ofNode task s.node settings s.kind)
    s.ports).sent_run now (messages.map (⟨0, ·⟩))
  rw [relay, hsent, List.mem_append] at ht
  rcases ht with ht | ht
  · obtain ⟨b, hb⟩ | ⟨t', ht', hmem⟩ := Operator.mem_messages (hbody.subset ht)
    · cases hb
    · cases ht'
      exact forall_watermark_of_messages s.ports h t hmem
  · cases List.mem_singleton.1 ht

variable {n : Node} {period : Span} {g : Grouping}

/-- While barriers stand at window ends, a branch keeps the barriers that it sends. -/
theorem Node.delivers_branch (hn : n.grouping? = some ⟨period, none, g⟩)
    (hperiod : 0 < period.reach) (hbuckets : ∀ bucket ∈ g.bucket, 0 < bucket.reach)
    (hbarriers : ∀ t, .barrier t ∈ messages → period.reach ∣ t.toInt) :
    Delivers (n.branch now task settings messages) ∧
      ∀ b ∈ batchesOf (n.branch now task settings messages), b.rows ≠ [] := by
  rw [branch, Plan.stagesOf_eq, hn]
  let first := (⟨n.id, n.id, n.kind, []⟩ : PlannedStage).relay now task settings messages
  let stage := Stage.new (Plan.groupingId n.id)
    (.windowing (.new period period g settings.windowHorizon)) 1
  let inbox := first.map fun m => (⟨0, m⟩ : Envelope)
  show Delivers (stage.run now inbox).2.1.sent ∧ ∀ b ∈ batchesOf (stage.run now inbox).2.1.sent, _
  have htiles : stage.operator.Tiles period :=
    ⟨_, rfl, rfl, rfl, hperiod, hbuckets, Windowing.allPanes_empty⟩
  have hwatermarks : ∀ t, .watermark t ∈ stage.marks.requests inbox → period.reach ∣ t.toInt :=
    forall_watermark_of_messages 1 fun t ht => PlannedStage.of_barrier_mem_relay hbarriers ht
  refine ⟨⟨stage.closes_run now inbox, Stage.pairwise_sent_run ?_⟩, fun b hb => ?_⟩
  · refine Operator.pairwise_messages_of_step (R := fun t b => b.After t)
      (Operator.Tiles period) (fun _ => True) Operator.Awaits (fun t _ => period.reach ∣ t.toInt)
      (fun h _ hanswer => ⟨(h.answer hanswer).1, Operator.awaits_of_answer hanswer,
        (h.answer hanswer).2.2⟩) htiles (fun _ _ => trivial) ?_
    refine List.pairwise_of_forall_mem_list fun r hr _ _ t ht => ?_
    cases r with
    | watermark t' =>
      cases ht
      exact hwatermarks t hr
    | batch port b => cases ht
    | close => cases ht
  · exact Operator.forall_batch_mem_messages (Operator.Tiles period)
      (fun _ => True) (fun h _ hanswer => ⟨(h.answer hanswer).1, (h.answer hanswer).2.1⟩)
      htiles (fun _ _ => trivial) b (Stage.batch_mem_of_run hb)

end Branch

/-- Sources of one period feed a union or a join through the stages that group their rows, and
barriers stand at window ends. Then every interleaving of the branches comes to the same: one merged
batch for each window and set of tags, and one joined batch for each alignment that is on every
branch, provided that no branch has an alignment twice and that the horizon has room for all. -/
theorem Plan.branches_combine_once (now : Instant) (task : String) (settings : Settings)
    (period : Span) (sources : List (Node × List Message)) (inbox : List Envelope)
    (hperiod : 1 ≤ period.nanos)
    (hsources : ∀ e ∈ sources, ∃ g, e.1.grouping? = some ⟨period, none, g⟩ ∧
      ∀ bucket ∈ g.bucket, 1 ≤ bucket.nanos)
    (hbarriers : ∀ e ∈ sources, ∀ t, .barrier t ∈ e.2 → period.reach ∣ t.toInt)
    (h : Interleaves (sources.map fun e => e.1.branch now task settings e.2) inbox) :
    let streams := sources.map fun e => e.1.branch now task settings e.2
    (∀ id name,
      let op : Merging := ⟨name, ∅⟩
      let result := (Stage.new id (.merging op) streams.length).run now inbox
      (batchesOf result.2.1.sent : Multiset Batch) = (keysIn Merging.alignment? streams).val.map
        (fun key => op.merge key (Merging.partsIn streams key)) ∧ result.2.2 = none) ∧
    (∀ id aliases on rename name horizon,
      let op : Joining := ⟨aliases, on, rename, name, horizon, ∅, 0⟩
      let result := (Stage.new id (.joining op) streams.length).run now inbox
      aliases.length = streams.length →
      (∀ s ∈ streams, ((batchesOf s).filterMap op.alignment?).Nodup) →
      (keysIn op.alignment? streams).card ≤ horizon →
      (batchesOf result.2.1.sent : Multiset Batch) =
        ((keysIn op.alignment? streams).filter (op.OnAll streams)).val.map
          (fun key => op.combine key (op.parts streams key)) ∧ result.2.2 = none) := by
  intro streams
  have hbranches : ∀ s ∈ streams, Delivers s ∧ ∀ b ∈ batchesOf s, b.rows ≠ [] := by
    intro s hs
    obtain ⟨e, he, rfl⟩ := List.mem_map.1 hs
    obtain ⟨g, hg, hbuckets⟩ := hsources e he
    exact Node.delivers_branch hg (Span.reach_pos hperiod)
      (fun bucket hbucket => Span.reach_pos (hbuckets bucket hbucket)) (hbarriers e he)
  obtain ⟨front, hrequests, hclose, hinTime, hcarries⟩ :=
    h.requests fun s hs => (hbranches s hs).1
  have haligned := hcarries.alignmentWindow_isSome fun s hs => (hbranches s hs).2
  constructor
  · intro id name op result
    obtain ⟨hfollows, hnone⟩ := Stage.run_performs (Merging.performs now) id op h.port_lt
    have hmerged : Merging.Merged op front _ _ := Merging.merged_run rfl
      (fun e he => (Option.isSome_map ..).trans (haligned e he)) hinTime hclose
    have hsent := hfollows.sent
    rw [hrequests, Request.run_concat, Merging.take] at hsent
    refine ⟨?_, hnone⟩
    rw [hsent, hmerged.out_onClose, hcarries.keysOf_eq, Merging.merged]
    exact Multiset.map_congr rfl fun key _ => Merging.merge_partsOf hcarries op key
  · intro id aliases on rename name horizon op result haliases hdistinct hhorizon
    obtain ⟨hfollows, hnone⟩ := Stage.run_performs (Joining.performs now) id op h.port_lt
    have hjoinable : op.Joinable op.aliases.length front :=
      Joining.joinable_of_carries hcarries rfl hinTime haliases haligned hdistinct hhorizon
    have hjoined := Joining.joined_run rfl rfl hjoinable hclose
    have hsent := hfollows.sent
    rw [hrequests, Request.run_concat, Joining.take] at hsent
    refine ⟨?_, hnone⟩
    rw [hsent, List.append_nil, hjoined.out, ← Joining.joined_eq_map hcarries]
    exact congrArg (op.joined · _) haliases

/-- Two streams, where the second comes as a whole after the first `n` messages of the first. -/
theorem interleaves_of_two (s t : List Message) (n : Nat) : Interleaves [s, t]
    ((s.take n).map (⟨0, ·⟩) ++ t.map (⟨1, ·⟩) ++ (s.drop n).map (⟨0, ·⟩)) := by
  intro port
  rw [messagesAt_append, messagesAt_append, messagesAt_map, messagesAt_map, messagesAt_map]
  match port with
  | 0 => simp
  | 1 => simp
  | n + 2 => simp

/-- Two sources with a row at 1 each, in windows of length 10 and buckets of length 2. -/
theorem Plan.branches_combine_once_of_two :
    let source (id : String) : Node :=
      ⟨id, .source ⟨none, none, some ⟨10⟩, ⟨some ⟨2⟩, []⟩, none⟩, []⟩
    let messages (v : Value) : List Message :=
      [.batch ⟨"m", ∅, ["v"], [⟨⟨1⟩, [v]⟩], none⟩, .barrier ⟨10⟩, .close]
    let a := (source "a").branch .epoch "task" .standard (messages .null)
    let b := (source "b").branch .epoch "task" .standard (messages (.bool true))
    let inbox : List Envelope :=
      (a.take 2).map (⟨0, ·⟩) ++ b.map (⟨1, ·⟩) ++ (a.drop 2).map (⟨0, ·⟩)
    let op : Joining := ⟨["a", "b"], [], ∅, none, 4, ∅, 0⟩
    (batchesOf ((Stage.new "union" (.merging ⟨none, ∅⟩) 2).run .epoch inbox).2.1.sent).length = 1 ∧
    (batchesOf ((Stage.new "join" (.joining op) 2).run .epoch inbox).2.1.sent).length = 1 := by
  intro source messages a b inbox op
  let sources : List (Node × List Message) :=
    [(source "a", messages .null), (source "b", messages (.bool true))]
  have hsources : ∀ e ∈ sources, ∃ g, e.1.grouping? = some ⟨⟨10⟩, none, g⟩ ∧
      ∀ bucket ∈ g.bucket, 1 ≤ bucket.nanos := by
    intro e he
    refine ⟨⟨some ⟨2⟩, []⟩, ?_, by decide⟩
    rcases List.mem_cons.1 he with rfl | he
    · rfl
    · rw [List.mem_singleton.1 he]
      rfl
  have hbarriers : ∀ e ∈ sources, ∀ t, .barrier t ∈ e.2 → (⟨10⟩ : Span).reach ∣ t.toInt := by
    intro e he t ht
    have hten : t = ⟨10⟩ := by
      rcases List.mem_cons.1 he with rfl | he
      · simpa [messages] using ht
      · rw [List.mem_singleton.1 he] at ht
        simpa [messages] using ht
    rw [hten]
    decide
  obtain ⟨hunion, hjoin⟩ := Plan.branches_combine_once .epoch "task" .standard ⟨10⟩ sources inbox
    (by decide) hsources hbarriers (interleaves_of_two a b 2)
  rw [show sources.map (fun e => e.1.branch .epoch "task" .standard e.2) = [a, b] from rfl]
    at hunion hjoin
  rw [show [a, b].length = 2 from rfl] at hunion hjoin
  obtain ⟨hmerged, -⟩ := hunion "union" none
  obtain ⟨hjoined, -⟩ := hjoin "join" ["a", "b"] [] ∅ none 4 rfl (by decide +kernel)
    (by decide +kernel)
  have honce : keysIn Merging.alignment? [a, b] = {⟨⟨⟨0⟩, ⟨2⟩⟩, ∅⟩} := by decide +kernel
  have hboth : (keysIn op.alignment? [a, b]).filter (op.OnAll [a, b]) = {⟨⟨⟨0⟩, ⟨2⟩⟩, ∅⟩} := by
    decide +kernel
  rw [honce] at hmerged
  rw [show Finset.filter _ _ = _ from hboth] at hjoined
  rw [← Multiset.coe_card, ← Multiset.coe_card, hmerged, hjoined]
  exact ⟨rfl, rfl⟩

/-- The same two sources with a barrier at 5. Both branches pass it on before their bucket that ends
at 2. With all of the second branch after the first bucket, the join drops the buckets of both, and
the union merges each of them by itself. -/
theorem Plan.branches_depend_on_interleaving :
    let source (id : String) : Node :=
      ⟨id, .source ⟨none, none, some ⟨10⟩, ⟨some ⟨2⟩, []⟩, none⟩, []⟩
    let messages (v : Value) : List Message :=
      [.batch ⟨"m", ∅, ["v"], [⟨⟨1⟩, [v]⟩], none⟩, .barrier ⟨5⟩, .barrier ⟨10⟩, .close]
    let a := (source "a").branch .epoch "task" .standard (messages .null)
    let b := (source "b").branch .epoch "task" .standard (messages (.bool true))
    let inbox : List Envelope :=
      (a.take 2).map (⟨0, ·⟩) ++ b.map (⟨1, ·⟩) ++ (a.drop 2).map (⟨0, ·⟩)
    let op : Joining := ⟨["a", "b"], [], ∅, none, 4, ∅, 0⟩
    let union := (Stage.new "union" (.merging ⟨none, ∅⟩) 2).run .epoch inbox
    let join := (Stage.new "join" (.joining op) 2).run .epoch inbox
    Interleaves [a, b] inbox ∧ keysIn op.alignment? [a, b] = {⟨⟨⟨0⟩, ⟨2⟩⟩, ∅⟩} ∧
      op.OnAll [a, b] ⟨⟨⟨0⟩, ⟨2⟩⟩, ∅⟩ ∧ (batchesOf union.2.1.sent).length = 2 ∧
      (batchesOf join.2.1.sent).length = 0 := by
  intro source messages a b inbox op union join
  refine ⟨interleaves_of_two a b 2, ?_, ?_, ?_, ?_⟩
  · decide +kernel
  · decide +kernel
  · decide +kernel
  · decide +kernel

end SeriesPipeline
