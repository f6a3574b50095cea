import SeriesPipeline.Proofs.Operator.Shape
import SeriesPipeline.Proofs.Stage.Course

/-!
# Chains of windowings

Windows end to end flush their rows after barriers between their ends have been passed on, so a
flushed row may be older than those barriers. It is still younger than every window end that they
have passed, and than every end of a window that is some of them long. A windowing by such windows
further down places every row, also where a reduction stands in between.
-/

namespace SeriesPipeline

/-- What a stage has sent once `messages` have come on its first port. -/
def Stage.relays (now : Instant) (s : Stage) (messages : List Message) : List Message :=
  (s.course now (messages.map (⟨0, ·⟩))).reaction.sent

/-- Every multiple of the period that comes after a row of the batch comes after `t`. -/
def Batch.Spares (period : Int) (t : Instant) (b : Batch) : Prop :=
  ∀ u ∈ b.times, ∀ stop : Instant, period ∣ stop.toInt → u < stop → t < stop

variable {period : Int} {now t stop : Instant} {b b' pane : Batch}

theorem Batch.antitone_spares (period : Int) (b : Batch) :
    Antitone fun t => b.Spares period t :=
  fun _ _ hle h u hu stop hdvd hlt => lt_of_le_of_lt hle (h u hu stop hdvd hlt)

theorem Batch.Thins.spares (h : b.Thins b') (hb : b.Spares period t) : b'.Spares period t :=
  fun u hu => hb u (h.times.subset hu)

theorem Reducing.consistent_onBatch {op : Reducing} (h : op.onBatch b = .ok (some b'))
    (hb : b.Consistent) : b'.Consistent := by
  obtain ⟨hthins, -, hcolumns, hwidth⟩ := of_onBatch_eq_some h
  have htimes : b.times.Pairwise (· ≤ ·) := List.pairwise_map.2 hb.ordered
  refine ⟨?_, fun r hr => ?_, List.pairwise_map.1 (htimes.sublist hthins.times)⟩
  · rw [hcolumns]
    exact List.nodup_singleton _
  · rw [hwidth r hr, hcolumns, List.length_singleton]

namespace Windowing

/-! ## Windows end to end -/

/-- Windows of one length end to end, with panes of consistent rows. -/
structure Tumbles (period : Int) (op : Windowing) : Prop where
  period_eq : op.period.reach = period
  every_eq : op.every.reach = period
  positive : 0 < period
  panes : AllPanes (ShapedPane True period period) op.panes

variable {op op' : Windowing}

theorem consistent_of_mem_pieces (hpane : ShapedPane True period period stop pane)
    (hb : b ∈ op.pieces stop pane) : b.Consistent := by
  obtain ⟨hcolumns, -, hsublist⟩ := sublist_of_mem_pieces hpane.covered.nonempty hb
  refine ⟨hcolumns ▸ hpane.columns trivial, fun r hr => ?_, ?_⟩
  · rw [hcolumns]
    exact hpane.width.sortRows r (hsublist.subset hr)
  · exact (List.pairwise_map.1 (Batch.pairwise_times_sortRows pane)).sublist hsublist

/-- A pane that ends after `t` has only rows of the window before its end, and no multiple of the
period lies inside of that window. -/
theorem spares_of_mem_pieces (hpane : ShapedPane True period period stop pane) (ht : t < stop)
    (hb : b ∈ op.pieces stop pane) : b.Spares period t := by
  intro u hu stop' hdvd hlt
  obtain ⟨-, -, hsublist⟩ := sublist_of_mem_pieces hpane.covered.nonempty hb
  obtain ⟨hstop, -, hle⟩ := hpane.covered.covers u (mem_times_of_sublist hsublist hu)
  refine lt_of_lt_of_le ht (Instant.le_def.2 ?_)
  rw [Instant.lt_def] at hlt
  by_contra hgap
  have hperiod : period ≤ stop.toInt - stop'.toInt :=
    Int.le_of_dvd (by omega) (Int.dvd_sub hstop hdvd)
  omega

section Steps

variable (h : op.Tumbles period)
include h

theorem Tumbles.of_advances (hadvances : Advances op op')
    (hpanes : AllPanes (ShapedPane True period period) op'.panes) : op'.Tumbles period :=
  ⟨hadvances.period ▸ h.period_eq, hadvances.every ▸ h.every_eq, h.positive, hpanes⟩

theorem Tumbles.extends (hb : b.Consistent) (key : SeriesKey) {row : Row} (hrow : row ∈ b.rows)
    (hstop : stop ∈ coveringEnds op.period.reach op.every.reach row.time) :
    Extends (ShapedPane True period period) key b.columns row stop := by
  rw [h.period_eq, h.every_eq] at hstop
  exact extends_shapedPane h.positive hstop (hb.width row hrow) fun _ => hb.columns

theorem Tumbles.answer {r : Request} {op' : Operator} {out : Emitted}
    (hr : ∀ e ∈ r.batch?, e.2.Consistent)
    (hanswer : (Operator.windowing op).answer now r = (op', .ok out)) :
    (∃ w, op' = .windowing w ∧ w.Tumbles period) ∧ (∀ b ∈ out.batches, b.Consistent) ∧
      ∀ t, (Operator.windowing op).Awaits t →
        op'.Awaits t ∧ ∀ b ∈ out.batches, b.Spares period t := by
  obtain ⟨⟨w, rfl, hadvances, hpanes⟩, hout, hafter⟩ := Operator.answer_of_allPanes h.panes
    (fun e he row hrow stop hstop => h.extends (hr e he) _ hrow hstop) hanswer
  refine ⟨⟨w, rfl, h.of_advances hadvances hpanes⟩, fun b hb => ?_, fun t hawaits => ?_⟩
  · obtain ⟨stop, pane, hpane, hb⟩ := hout b hb
    exact consistent_of_mem_pieces hpane hb
  · obtain ⟨hawaits', hlater⟩ := hafter t hawaits
    refine ⟨hawaits', fun b hb => ?_⟩
    obtain ⟨stop, pane, hlt, hpane, hb⟩ := hlater b hb
    exact spares_of_mem_pieces hpane hlt hb

end Steps

end Windowing

/-! ## What reaches the end of a chain -/

/-- Consistent batches, each of which is spared by the barriers before it. -/
structure Spared (period : Int) (messages : List Message) : Prop where
  consistent : ∀ b, .batch b ∈ messages → b.Consistent
  spares : messages.Pairwise (Message.Keeps fun t b => b.Spares period t)
  unclosed : .close ∉ messages

theorem Spared.of_isPrefix {messages more : List Message} (h : Spared period more)
    (hbegins : messages <+: more) : Spared period messages :=
  ⟨fun b hb => h.consistent b (hbegins.subset hb), h.spares.sublist hbegins.sublist,
    fun hclose => h.unclosed (hbegins.subset hclose)⟩

variable {messages : List Message}

/-- A barrier before a batch does not reach the ends of longer windows that cover its rows. -/
theorem Spared.lt_of_covers {length every : Int} {row : Row}
    (h : Spared period (messages ++ [.batch b])) (ht : .barrier t ∈ messages) (hrow : row ∈ b.rows)
    (hdvd : period ∣ every) (hcovers : Windowing.Covers length every row.time stop) : t < stop := by
  have hspares : b.Spares period t :=
    (List.pairwise_append.1 h.spares).2.2 _ ht _ List.mem_cons_self t rfl b rfl
  exact hspares row.time (List.mem_map_of_mem hrow) stop (Int.dvd_trans hdvd hcovers.1) hcovers.2.1

theorem consistent_of_mem_requests (h : ∀ b, .batch b ∈ messages → b.Consistent) (ports : Nat) :
    ∀ r ∈ (Watermarks.new ports).requests (messages.map (⟨0, ·⟩)), ∀ e ∈ r.batch?,
      e.2.Consistent := by
  intro r hr e he
  cases r with
  | batch port b =>
    cases he
    obtain ⟨m, hm, heq⟩ := List.mem_map.1 (mem_of_batch_mem_requests hr)
    cases heq
    exact h b hm
  | watermark t => cases he
  | close => cases he

/-- What comes of windows end to end is spared by the barriers among it, whatever they take. -/
theorem Windowing.Tumbles.spared_relays {op : Windowing} (h : op.Tumbles period) (now : Instant)
    (id : String) (hmessages : ∀ b, .batch b ∈ messages → b.Consistent) :
    Spared period ((Stage.new id (.windowing op) 1).relays now messages) := by
  have hfits := consistent_of_mem_requests hmessages 1
  refine Spared.of_isPrefix ?_ (Stage.sent_course _ _)
  refine ⟨?_, ?_, Operator.close_notMem_messages⟩
  · refine Operator.forall_batch_mem_messages
      (fun op => ∃ w, op = .windowing w ∧ w.Tumbles period)
      (fun r => ∀ e ∈ r.batch?, e.2.Consistent) ?_ ⟨op, rfl, h⟩ hfits
    rintro _ op' r out ⟨w, rfl, hw⟩ hr hanswer
    exact ⟨(hw.answer hr hanswer).1, (hw.answer hr hanswer).2.1⟩
  · refine Operator.pairwise_messages_of_step (fun op => ∃ w, op = .windowing w ∧ w.Tumbles period)
      (fun r => ∀ e ∈ r.batch?, e.2.Consistent) Operator.Awaits (fun _ _ => True)
      ?_ ⟨op, rfl, h⟩ hfits (List.pairwise_of_forall fun _ _ _ _ => trivial)
    rintro _ op' r out ⟨w, rfl, hw⟩ hr hanswer
    obtain ⟨hnext, -, hspares⟩ := hw.answer hr hanswer
    exact ⟨hnext, Operator.awaits_of_answer hanswer, fun t hawaits _ => hspares t hawaits⟩

/-- A reduction gives out no rows at other times, so barriers spare as much as before. -/
theorem Reducing.spared_relays (op : Reducing) (id : String) (h : Spared period messages) :
    Spared period ((Stage.new id (.reducing op) 1).relays now messages) := by
  have hfits := consistent_of_mem_requests h.consistent 1
  have hinbox : ∀ port, (messagesAt port (messages.map (⟨0, ·⟩))).Pairwise
      (Message.Keeps fun t b => b.Spares period t) := by
    intro port
    rw [messagesAt_map]
    split
    · exact h.spares
    · exact .nil
  -- a reduction keeps no rows back, so an answer spares what its request spares
  have hkeeps := keeps_requests (Batch.antitone_spares period) 1 hinbox
  have hstep : ∀ {op' : Operator} {r : Request} {out : Emitted},
      (Operator.reducing op).answer now r = (op', .ok out) → op' = .reducing op ∧
        ∀ b' ∈ out.batches, ∃ e ∈ r.batch?, op.onBatch e.2 = .ok (some b') := by
    intro op' r out hanswer
    cases r with
    | batch port b =>
      obtain ⟨rfl, hmapped⟩ := Prod.mk.inj hanswer
      obtain ⟨result, hresult, rfl⟩ := map_eq_ok.1 hmapped
      refine ⟨rfl, fun b' hb' => ⟨(port, b), rfl, ?_⟩⟩
      rw [hresult, Option.mem_toList.1 hb']
    | watermark t =>
      cases hanswer
      exact ⟨rfl, nofun⟩
    | close =>
      cases hanswer
      exact ⟨rfl, nofun⟩
  refine Spared.of_isPrefix ?_ (Stage.sent_course _ _)
  refine ⟨?_, ?_, Operator.close_notMem_messages⟩
  · refine Operator.forall_batch_mem_messages (· = .reducing op)
      (fun r => ∀ e ∈ r.batch?, e.2.Consistent) ?_ rfl hfits
    rintro _ op' r out rfl hr hanswer
    obtain ⟨hop, hout⟩ := hstep hanswer
    refine ⟨hop, fun b' hb' => ?_⟩
    obtain ⟨e, he, hresult⟩ := hout b' hb'
    exact consistent_onBatch hresult (hr e he)
  · refine Operator.pairwise_messages_of_step (· = .reducing op) (fun _ => True)
      (fun _ _ => True) (fun t r => ∀ e ∈ r.batch?, e.2.Spares period t) ?_ rfl
      (fun _ _ => trivial) hkeeps
    rintro _ op' r out rfl - hanswer
    obtain ⟨hop, hout⟩ := hstep hanswer
    refine ⟨hop, fun _ _ => trivial, fun t _ hr => ⟨trivial, fun b' hb' => ?_⟩⟩
    obtain ⟨e, he, hresult⟩ := hout b' hb'
    exact (of_onBatch_eq_some hresult).1.spares (hr e he)

/-! ## Windows without a horizon -/

namespace Windowing

/-- The rows of some batches that a window end of a group covers, in order of arrival. -/
def coveredRows (op : Windowing) (key : SeriesKey) (stop : Instant) (batches : List Batch) :
    List Entry :=
  batches.flatMap fun b =>
    if op.grouping.keyFor b = key then
      b.entries.filter fun e => Covers op.period.reach op.every.reach e.time stop
    else []

theorem coveredRows_concat (op : Windowing) (key : SeriesKey) (stop : Instant)
    (batches : List Batch) (b : Batch) : op.coveredRows key stop (batches ++ [b]) =
      op.coveredRows key stop batches ++ if op.grouping.keyFor b = key then
        b.entries.filter fun e => Covers op.period.reach op.every.reach e.time stop
      else [] := by
  rw [coveredRows, List.flatMap_append, List.flatMap_singleton]
  rfl

theorem mem_coveredRows {op : Windowing} {batches : List Batch} {row : Row} (hb : b ∈ batches)
    (hrow : row ∈ b.rows) (hcovers : Covers op.period.reach op.every.reach row.time stop) :
    ⟨b.columns, row⟩ ∈ op.coveredRows (op.grouping.keyFor b) stop batches := by
  refine List.mem_flatMap.2 ⟨b, hb, ?_⟩
  rw [if_pos rfl]
  exact List.mem_filter.2 ⟨List.mem_map_of_mem hrow, decide_eq_true hcovers⟩

/-- `op` has come of `start` by some batches of which no row was late: the panes of every open end
hold all the rows that the end covers. -/
structure Gathers (start : Windowing) (batches : List Batch) (op : Windowing) : Prop where
  config : Advances start op
  every_pos : 0 < start.every.reach
  unlimited : op.horizon = none
  opened : ∀ key stop, op.isClosed stop = false →
    PaneHolds key (start.coveredRows key stop batches) (op.pane? key stop)
  closed : ∀ key stop, op.isClosed stop = true → op.pane? key stop = none
  late : op.lateRows = 0

variable {start op : Windowing} {batches : List Batch}

theorem gathers_new {period every : Span} (grouping : Grouping) (hevery : 0 < every.reach) :
    Gathers (new period every grouping none) [] (new period every grouping none) :=
  ⟨.refl _, hevery, rfl, fun _ _ _ => rfl, nofun, rfl⟩

/-- A row is not late where all ends that cover it are open. -/
theorem lateRows_addRow (key : SeriesKey) (columns : List String) {row : Row}
    (h : ∀ stop ∈ coveringEnds op.period.reach op.every.reach row.time, op.isClosed stop = false) :
    (addRow key columns op row).lateRows = op.lateRows := by
  have hall : (coveringEnds op.period.reach op.every.reach row.time).filter
      (fun stop => !op.isClosed stop) = coveringEnds op.period.reach op.every.reach row.time :=
    List.filter_eq_self.2 fun stop hstop => by rw [h stop hstop]; rfl
  rw [addRow, hall]
  cases (coveringEnds op.period.reach op.every.reach row.time).isEmpty <;> rfl

theorem lateRows_foldl_addRow {key : SeriesKey} {columns : List String} {rows : List Row}
    (h : ∀ row ∈ rows, ∀ stop ∈ coveringEnds op.period.reach op.every.reach row.time,
      op.isClosed stop = false) :
    (rows.foldl (addRow key columns) op).lateRows = op.lateRows := by
  induction rows generalizing op with
  | nil => rfl
  | cons row rest ih =>
    have hlate := lateRows_addRow key columns (h row List.mem_cons_self)
    refine (ih fun row' hrow' => ?_).trans hlate
    -- placing a row closes no end
    obtain ⟨late, unwindowed, heq⟩ := addRow_eq key columns op row
    rw [heq]
    exact h row' (List.mem_cons_of_mem _ hrow')

theorem onBatch_of_unlimited (h : op.horizon = none) (b : Batch) :
    op.onBatch b = (b.rows.foldl (addRow (op.grouping.keyFor b) b.columns) op, []) := by
  have hhorizon : (b.rows.foldl (addRow (op.grouping.keyFor b) b.columns) op).horizon = none := by
    obtain ⟨panes, late, unwindowed, heq⟩ :=
      foldl_addRow_eq (op.grouping.keyFor b) b.columns op b.rows
    rw [heq]
    exact h
  rw [onBatch, enforceHorizon, hhorizon]

theorem isClosed_onBatch_of_unlimited (h : op.horizon = none) (b : Batch) (stop : Instant) :
    (op.onBatch b).1.isClosed stop = op.isClosed stop := by
  obtain ⟨panes, late, unwindowed, heq⟩ :=
    foldl_addRow_eq (op.grouping.keyFor b) b.columns op b.rows
  rw [onBatch_of_unlimited h, heq]
  rfl

namespace Gathers

variable (h : Gathers start batches op)
include h

theorem onBatch (hb : b.Consistent)
    (hopen : ∀ row ∈ b.rows, ∀ stop ∈ coveringEnds start.period.reach start.every.reach row.time,
      op.isClosed stop = false) :
    Gathers start (batches ++ [b]) (op.onBatch b).1 := by
  have hclosed := isClosed_onBatch_of_unlimited h.unlimited b
  have hpane : ∀ key stop entries, PaneHolds key entries (op.pane? key stop) →
      PaneHolds key (entries ++ if op.grouping.keyFor b = key then
        b.entries.filter fun e => op.Assigns e.time stop else [])
        ((op.onBatch b).1.pane? key stop) := by
    intro key stop entries hold
    rw [onBatch_of_unlimited h.unlimited]
    exact paneHolds_foldl_addRow (h.config.every ▸ h.every_pos)
      (fun r hr => hb.wellFormed _ (List.mem_map_of_mem hr)) hold
  refine ⟨h.config.trans (advances_onBatch op b), h.every_pos, ?_, ?_, ?_, ?_⟩
  · obtain ⟨panes, late, unwindowed, heq⟩ :=
      foldl_addRow_eq (op.grouping.keyFor b) b.columns op b.rows
    rw [onBatch_of_unlimited h.unlimited, heq]
    exact h.unlimited
  · -- an open end is assigned all the rows that it covers
    intro key stop hstop
    rw [hclosed] at hstop
    have hassigns : ∀ t, op.Assigns t stop ↔
        Covers start.period.reach start.every.reach t stop := by
      intro t
      rw [Assigns, h.config.period, h.config.every]
      exact and_iff_left hstop
    have hold := hpane key stop _ (h.opened key stop hstop)
    simp only [hassigns, h.config.grouping] at hold
    rw [coveredRows_concat]
    exact hold
  · -- and a closed end none
    intro key stop hstop
    rw [hclosed] at hstop
    have hassigns : ∀ t, ¬ op.Assigns t stop := fun t ht => by
      rw [ht.2] at hstop
      cases hstop
    have hempty := hpane key stop [] (by rw [h.closed key stop hstop]; exact rfl)
    simp only [hassigns, decide_false, List.filter_false, ite_self, List.append_nil] at hempty
    exact hempty.eq_none
  · rw [onBatch_of_unlimited h.unlimited]
    refine (lateRows_foldl_addRow fun row hrow stop hstop => hopen row hrow stop ?_).trans h.late
    rwa [h.config.period, h.config.every] at hstop

theorem onWatermark (t : Instant) : Gathers start batches (op.onWatermark t).1 := by
  have hevicts := evicts_onWatermark op t
  have hpane := hevicts.pane?_eq h.closed
  refine ⟨h.config.trans hevicts.advances, h.every_pos, h.unlimited, ?_, ?_, h.late⟩
  · intro key stop hstop
    rw [hpane, hstop]
    refine h.opened key stop ?_
    rw [← Bool.not_eq_true] at hstop ⊢
    exact fun hc => hstop (hevicts.keeps stop hc)
  · intro key stop hstop
    rw [hpane, hstop]
    rfl

end Gathers

/-! ## The end of a chain -/

/-- `c` is a windowing with one port, which is open. It has closed ends by barriers that came, and
no row that came was late. -/
structure GathersAll (start : Windowing) (messages : List Message) (c : Course) : Prop where
  running : c.progress = .running
  port : ∃ mark, c.stage.marks.ports = [⟨mark, true⟩]
  marked : c.stage.marks.Marked fun t => .barrier t ∈ messages
  operator : ∃ op, c.stage.operator = .windowing op ∧ Gathers start (batchesOf messages) op ∧
    ∀ stop, op.isClosed stop = true → ∃ t, .barrier t ∈ messages ∧ stop ≤ t

namespace GathersAll

variable {start : Windowing} {c : Course}

theorem batch (h : GathersAll start messages c)
    (hspared : Spared period (messages ++ [.batch b])) (hdvd : period ∣ start.every.reach) :
    GathersAll start (messages ++ [.batch b]) (c.take now ⟨0, .batch b⟩) := by
  obtain ⟨mark, hport⟩ := h.port
  obtain ⟨op, hop, hgathers, hclosed⟩ := h.operator
  have hbarrier : ∀ {t}, .barrier t ∈ messages → .barrier t ∈ messages ++ [.batch b] :=
    fun ht => List.mem_append_left _ ht
  have hopen : ∀ row ∈ b.rows, ∀ stop ∈ coveringEnds start.period.reach start.every.reach row.time,
      op.isClosed stop = false := by
    intro row hrow stop hstop
    rw [← Bool.not_eq_true]
    intro hc
    obtain ⟨t, ht, hle⟩ := hclosed stop hc
    have hcovers := (mem_coveringEnds hgathers.every_pos row.time stop).1 hstop
    exact absurd hle (not_le.2 (hspared.lt_of_covers ht hrow hdvd hcovers))
  have htake : c.take now ⟨0, .batch b⟩ = ⟨{ c.stage with
      operator := .windowing (op.onBatch b).1
      batchesIn := c.stage.batchesIn + 1
      batchesOut := c.stage.batchesOut + (op.onBatch b).2.length },
      c.reaction ++ ⟨(op.onBatch b).2.map .batch, [], []⟩, .running⟩ := by
    rw [Course.take_of_running h.running, Stage.receive, hport]
    simp only [Stage.takeBatch, hop]
    rfl
  rw [htake]
  refine ⟨rfl, ⟨mark, hport⟩, fun p hp m hm => hbarrier (h.marked p hp m hm), _, rfl, ?_, ?_⟩
  · rw [batchesOf_append]
    exact hgathers.onBatch (hspared.consistent b (List.mem_append_right _ List.mem_cons_self)) hopen
  · intro stop hstop
    rw [isClosed_onBatch_of_unlimited hgathers.unlimited] at hstop
    obtain ⟨t, ht, hle⟩ := hclosed stop hstop
    exact ⟨t, hbarrier ht, hle⟩

theorem barrier (h : GathersAll start messages c) (t : Instant) :
    GathersAll start (messages ++ [.barrier t]) (c.take now ⟨0, .barrier t⟩) := by
  obtain ⟨mark, hport⟩ := h.port
  obtain ⟨op, hop, hgathers, hclosed⟩ := h.operator
  have hmarked : c.stage.marks.Marked fun t' => .barrier t' ∈ messages ++ [.barrier t] :=
    fun p hp m hm => List.mem_append_left _ (h.marked p hp m hm)
  obtain ⟨hnext, hmark⟩ := hmarked.observe 0 (List.mem_append_right _ List.mem_cons_self)
  have hports : ∃ mark, (c.stage.marks.observe 0 t).1.ports = [⟨mark, true⟩] := by
    rw [Watermarks.observe, Watermarks.ports_advance, hport]
    exact ⟨_, rfl⟩
  have hbatches : batchesOf (messages ++ [.barrier t]) = batchesOf messages := by
    rw [batchesOf_append]
    exact List.append_nil _
  have hkept : ∀ stop, op.isClosed stop = true →
      ∃ t', .barrier t' ∈ messages ++ [.barrier t] ∧ stop ≤ t' := by
    intro stop hstop
    obtain ⟨t', ht', hle⟩ := hclosed stop hstop
    exact ⟨t', List.mem_append_left _ ht', hle⟩
  rw [Course.take_of_running h.running, Stage.receive, hport]
  simp only [List.getElem?_cons_zero, if_true, Stage.takeBarrier]
  cases hnew : (c.stage.marks.observe 0 t).2 with
  | none => exact ⟨rfl, hports, hnext, op, hop, hbatches ▸ hgathers, hkept⟩
  | some t' =>
    simp only [Stage.advance, hop]
    refine ⟨rfl, hports, hnext, (op.onWatermark t').1, rfl, hbatches ▸ hgathers.onWatermark t', ?_⟩
    intro stop hstop
    rcases (isClosed_closeThrough _ t' stop).1 hstop with hstop | hle
    · exact hkept stop hstop
    · exact ⟨t', hmark t' hnew, hle⟩

theorem course (now : Instant) (id : String) (h : Spared period messages)
    (hstart : Gathers start [] start) (hclosed : start.closedThrough = none)
    (hdvd : period ∣ start.every.reach) :
    GathersAll start messages
      ((Stage.new id (.windowing start) 1).course now (messages.map (⟨0, ·⟩))) := by
  induction messages using List.reverseRecOn with
  | nil =>
    refine ⟨rfl, ⟨none, rfl⟩, Watermarks.marked_new _ 1, start, rfl, hstart, fun stop hstop => ?_⟩
    obtain ⟨c, hc, -⟩ := isClosed_iff.1 hstop
    rw [hclosed] at hc
    cases hc
  | append_singleton messages m ih =>
    have hbefore := ih (h.of_isPrefix (List.prefix_append _ _))
    rw [List.map_append, List.map_singleton, Stage.course_concat]
    cases m with
    | batch b => exact hbefore.batch h hdvd
    | barrier t => exact hbefore.barrier t
    | close => exact absurd (List.mem_append_right _ List.mem_cons_self) h.unclosed

end GathersAll

/-- Of two windowings end to end in a chain, where the second has windows some of the first one's
long and no horizon, the second loses no row, whatever batches and barriers the first one takes and
whether or not a reduction stands in between: none of its rows is late, and right after a batch has
come its rows are in the panes of all window ends that cover them, with all rows from before. -/
theorem chain_loses_no_row (now : Instant) (first last between : String) (period times : Nat)
    (grouping grouping' : Grouping) (horizon : Option Nat) (reducing : Option Reducing)
    (messages received : List Message) (hperiod : 1 ≤ period) (htimes : 1 ≤ times)
    (hlongest : times * period ≤ Span.longest)
    (hmessages : ∀ b, .batch b ∈ messages → b.checkConsistency = .ok ())
    (hreceived :
      let sent := (Stage.new first (.windowing (new ⟨period⟩ ⟨period⟩ grouping horizon)) 1).relays
        now messages
      received <+: reducing.elim sent fun op =>
        (Stage.new between (.reducing op) 1).relays now sent) :
    let start := new ⟨times * period⟩ ⟨times * period⟩ grouping' none
    let stage := ((Stage.new last (.windowing start) 1).course now (received.map (⟨0, ·⟩))).stage
    stage.stats.lateRows = 0 ∧ ∃ op, stage.operator = .windowing op ∧
      ∀ before b, received = before ++ [.batch b] → ∀ row ∈ b.rows, ∀ stop,
        Covers (times * period) (times * period) row.time stop →
        ∃ pane, op.pane? (grouping'.keyFor b) stop = some pane ∧
          pane.Holds (start.coveredRows (grouping'.keyFor b) stop (batchesOf received)) := by
  intro start stage
  have hreach : (⟨times * period⟩ : Span).reach = times * period := by
    rw [Span.reach, Int.min_eq_left (Int.ofNat_le.2 hlongest), Int.natCast_mul]
  have hreach' : (⟨period⟩ : Span).reach = period := by
    refine Int.min_eq_left (Int.ofNat_le.2 ?_)
    exact le_trans (Nat.le_mul_of_pos_left period htimes) hlongest
  have hdvd : (period : Int) ∣ start.every.reach := by
    rw [show start.every.reach = _ from hreach]
    exact Int.dvd_mul_left _ _
  -- everything the first stage sends stands in windows whose ends are multiples of the period
  have htumbles : (new ⟨period⟩ ⟨period⟩ grouping horizon).Tumbles period :=
    ⟨hreach', hreach', Int.ofNat_lt.2 hperiod, allPanes_empty⟩
  have hsent := htumbles.spared_relays now first
    fun b hb => Batch.checkConsistency_eq_ok_iff.1 (hmessages b hb)
  have hspared : Spared period received := by
    cases reducing with
    | none => exact hsent.of_isPrefix hreceived
    | some op => exact (op.spared_relays between hsent).of_isPrefix hreceived
  have hpositive : 0 < (⟨times * period⟩ : Span).reach :=
    Span.reach_pos (Nat.mul_pos htimes hperiod)
  obtain ⟨-, -, -, op, hop, hgathers, hclosed⟩ :=
    GathersAll.course now last hspared (gathers_new grouping' hpositive) rfl hdvd
  refine ⟨?_, op, hop, ?_⟩
  · rw [Stage.stats, show stage.operator = _ from hop]
    exact hgathers.late
  · rintro before b rfl row hrow stop hcovers
    -- only a barrier before the batch could have closed the end, and each is less than it
    have hopen : op.isClosed stop = false := by
      rw [← Bool.not_eq_true]
      intro hc
      obtain ⟨t, ht, hle⟩ := hclosed stop hc
      have hbefore : .barrier t ∈ before := (List.mem_append.1 ht).resolve_right (by simp)
      have hdvd' : (period : Int) ∣ times * period := Int.dvd_mul_left _ _
      exact absurd hle (not_le.2 (hspared.lt_of_covers hbefore hrow hdvd' hcovers))
    have hold := hgathers.opened (grouping'.keyFor b) stop hopen
    have hb : b ∈ batchesOf (before ++ [.batch b]) := by
      rw [batchesOf_append]
      exact List.mem_append_right _ List.mem_cons_self
    have hcovers' : Covers start.period.reach start.every.reach row.time stop := by
      rw [show start.period.reach = _ from hreach, show start.every.reach = _ from hreach]
      exact hcovers
    have hmem := mem_coveredRows hb hrow hcovers'
    cases hpane : op.pane? (grouping'.keyFor b) stop with
    | none =>
      rw [hpane] at hold
      exact absurd hold (List.ne_nil_of_mem hmem)
    | some pane =>
      rw [hpane] at hold
      exact ⟨pane, rfl, hold.2.2⟩

/-- A row at 3 in windows of length 10, each row reduced to its value, and then in windows of length
20. The first windowing passes the barrier at 5 on before the row. -/
theorem chain_loses_no_row_of_two :
    let messages : List Message :=
      [.batch ⟨"m", ∅, ["v"], [⟨⟨3⟩, [.int 1]⟩], none⟩, .barrier ⟨5⟩, .barrier ⟨10⟩]
    let flushed : Batch := ⟨"m", ∅, ["v"], [⟨⟨3⟩, [.int 1]⟩], some ⟨⟨0⟩, ⟨10⟩⟩⟩
    let sent := (Stage.new "a" (.windowing (new ⟨10⟩ ⟨10⟩ .empty (some 1))) 1).relays
      .epoch messages
    let reduced := (Stage.new "first" (.reducing ⟨.identity, .first, some "v", "v"⟩) 1).relays
      .epoch sent
    let stage := ((Stage.new "b" (.windowing (new ⟨20⟩ ⟨20⟩ .empty none)) 1).course .epoch
      ((reduced.take 2).map (⟨0, ·⟩))).stage
    reduced = [.barrier ⟨5⟩, .batch flushed, .barrier ⟨10⟩] ∧ stage.stats.lateRows = 0 ∧
      ∃ op pane, stage.operator = .windowing op ∧ op.pane? ⟨"m", ∅⟩ ⟨20⟩ = some pane ∧
        pane.Holds [⟨["v"], ⟨⟨3⟩, [.int 1]⟩⟩] := by
  intro messages flushed sent reduced stage
  have hreduced : reduced = [.barrier ⟨5⟩, .batch flushed, .barrier ⟨10⟩] := by
    with_unfolding_all rfl
  have hmessages : ∀ b, .batch b ∈ messages → b.checkConsistency = .ok () := by
    intro b hb
    rcases List.mem_cons.1 hb with hb | hb
    · cases hb
      rfl
    · simp at hb
  obtain ⟨hlate, op, hop, hplaced⟩ := chain_loses_no_row .epoch "a" "b" "first" 10 2 .empty .empty
    (some 1) (some ⟨.identity, .first, some "v", "v"⟩) messages (reduced.take 2) (by decide)
    (by decide) (by decide) hmessages (List.take_prefix 2 reduced)
  obtain ⟨pane, hpane, hholds⟩ := hplaced [.barrier ⟨5⟩] flushed (by rw [hreduced]; rfl) _
    List.mem_cons_self ⟨20⟩ (by decide)
  rw [hreduced] at hholds
  exact ⟨hreduced, hlate, op, pane, hop, hpane, hholds⟩

end Windowing

end SeriesPipeline
