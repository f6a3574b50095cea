import SeriesPipeline.Proofs.Joining.Completion
import SeriesPipeline.Proofs.Merging.Parts
import SeriesPipeline.Proofs.Merging.Windows
import SeriesPipeline.Proofs.Stage.Messages
import SeriesPipeline.Proofs.Stage.Promises
import SeriesPipeline.Proofs.Windowing.Buffered

/-!
# Barriers of stages

What a stage sends keeps the barriers that it sends, if what it takes keeps the barriers that it
takes. A windowing without a bucket has its barriers kept whatever it takes.
-/

namespace SeriesPipeline

variable {t : Instant} {b b' : Batch} {out : Emitted} {r : Request} {now : Instant}

namespace Batch

theorem after_of_window {w : Window} (h : b.window = some w) (hlt : t < w.stop) : b.After t := by
  intro w' hw'
  rw [alignmentWindow, h] at hw'
  exact Option.some.inj hw' ▸ hlt

theorem firstTime_eq (b : Batch) : b.firstTime = b.times.head? := List.head?_map.symm

/-- With fewer rows, a batch without a window begins no earlier. -/
theorem Thins.after (h : b.Thins b') (hb : b.Consistent) (hafter : b.After t) : b'.After t := by
  intro w hw
  rw [After, alignmentWindow] at hafter
  rw [alignmentWindow, h.window] at hw
  cases hwindow : b.window with
  | some _ =>
    rw [hwindow] at hafter hw
    exact hafter w hw
  | none =>
    rw [hwindow, firstTime_eq] at hafter hw
    obtain ⟨first', hfirst', rfl⟩ := Option.map_eq_some_iff.1 hw
    have hmem : first' ∈ b.times := h.times.subset (List.mem_of_head? hfirst')
    have htimes : b.times.Pairwise (· ≤ ·) := List.pairwise_map.2 hb.ordered
    obtain ⟨first, rest, hrows⟩ := List.exists_cons_of_ne_nil (List.ne_nil_of_mem hmem)
    rw [hrows] at hafter hmem htimes
    have hle : first ≤ first' := by
      rcases List.mem_cons.1 hmem with rfl | hmem
      · exact le_refl _
      · exact List.rel_of_pairwise_cons htimes hmem
    exact lt_of_lt_of_le (hafter _ rfl) (Instant.succ_le_succ hle)

end Batch

/-! ## What operators hold back -/

/-- What is buffered belongs to windows after `t`, and so does what will be. -/
structure Windowing.Awaits (t : Instant) (op : Windowing) : Prop where
  closed : op.isClosed t = true
  panes : Windowing.AllPanes (fun stop _ => t < stop) op.panes

/-- What is pending belongs to windows after `t`. -/
def Merging.Awaits (t : Instant) (op : Merging) : Prop :=
  op.pending.All fun key _ => t < key.window.stop

namespace Windowing

variable {op : Windowing} {P : Instant → Batch → Prop}

theorem awaits_onWatermark (op : Windowing) (t : Instant) : (op.onWatermark t).1.Awaits t where
  closed := (isClosed_closeThrough _ t t).2 (.inr (le_refl t))
  panes := allPanes_onWatermark op t

theorem after_of_mem_pieces {stop : Instant} {pane : Batch} (h : op.grouping.bucket = none)
    (hstop : t < stop) (hb : b ∈ op.pieces stop pane) : b.After t := by
  rw [pieces, h] at hb
  rw [List.mem_singleton.1 hb]
  exact Batch.after_of_window rfl hstop

section Panes

variable (h : op.Awaits t) (hpanes : AllPanes P op.panes) {Q : Batch → Prop}
  (hpieces : ∀ {stop pane b}, t < stop → P stop pane → b ∈ op.pieces stop pane → Q b)
include h hpanes hpieces

theorem Awaits.onBatch
    (hnew : ∀ row ∈ b.rows, ∀ stop ∈ coveringEnds op.period.reach op.every.reach row.time,
      Extends P (op.grouping.keyFor b) b.columns row stop) :
    (op.onBatch b).1.Awaits t ∧ ∀ b' ∈ (op.onBatch b).2, Q b' := by
  have hboth : AllPanes (fun stop pane => t < stop ∧ P stop pane) op.panes :=
    fun e he g hg => ⟨h.panes e he g hg, hpanes e he g hg⟩
  -- an open end comes after a closed one
  obtain ⟨hkept, hout⟩ := hboth.onBatch (b := b) fun row hrow stop hstop hopen pane hpane =>
    ⟨lt_of_isClosed h.closed hopen, hnew row hrow stop hstop pane fun b hb => (hpane b hb).2⟩
  refine ⟨⟨(advances_onBatch op b).closed t h.closed, fun e he g hg => (hkept e he g hg).1⟩, ?_⟩
  intro b' hb'
  obtain ⟨stop, pane, ⟨hlt, hpane⟩, hb'⟩ := hout b' hb'
  exact hpieces hlt hpane hb'

theorem Awaits.onWatermark (t' : Instant) :
    (op.onWatermark t').1.Awaits t ∧ ∀ b ∈ (op.onWatermark t').2, Q b := by
  have hboth : AllPanes (fun stop pane => t < stop ∧ P stop pane) op.panes :=
    fun e he g hg => ⟨h.panes e he g hg, hpanes e he g hg⟩
  obtain ⟨hkept, hout⟩ := hboth.onWatermark t'
  refine ⟨⟨(advances_onWatermark op t').closed t h.closed, fun e he g hg =>
    (hkept e he g hg).1⟩, ?_⟩
  intro b hb
  obtain ⟨stop, pane, ⟨hlt, hpane⟩, hb⟩ := hout b hb
  exact hpieces hlt hpane hb

end Panes

theorem Awaits.onClose (h : op.Awaits t) : op.onClose.Awaits t := ⟨h.closed, allPanes_empty⟩

end Windowing

namespace Merging

variable {op : Merging}

theorem after_of_mem_mergeAll {pending : SortedMap Alignment Parts}
    (h : pending.All fun key _ => t < key.window.stop) (hb : b ∈ op.mergeAll pending) :
    b.After t := by
  obtain ⟨e, he, rfl⟩ := List.mem_map.1 hb
  exact Batch.after_of_window window_merge (h e he)

theorem Awaits.onBatch (h : op.Awaits t) (port : Nat) (hb : b.After t) :
    (op.onBatch port b).Awaits t := by
  rw [Merging.onBatch]
  cases hwindow : b.alignmentWindow with
  | none => exact h
  | some w => exact SortedMap.All.insert h (hb w hwindow)

theorem Awaits.onWatermark (h : op.Awaits t) (t' : Instant) :
    (op.onWatermark t').1.Awaits t ∧ ∀ b ∈ (op.onWatermark t').2, b.After t :=
  ⟨SortedMap.All.filter h _, fun _ hb => after_of_mem_mergeAll (SortedMap.All.filter h _) hb⟩

theorem awaits_onWatermark (op : Merging) (t : Instant) : (op.onWatermark t).1.Awaits t := by
  intro e he
  have hnot := (List.mem_filter.1 he).2
  exact not_le.1 fun hle => by simp [hle] at hnot

end Merging

/-- A joined batch is of the window of the batch that completes it. -/
theorem Joining.after_onBatch {op : Joining} {port : Nat} (hb : b.After t)
    (hb' : b' ∈ (op.onBatch port b).2) : b'.After t := by
  rw [onBatch] at hb'
  cases hkey : op.alignment? b with
  | none =>
    rw [hkey] at hb'
    cases hb'
  | some key =>
    rw [hkey] at hb'
    obtain ⟨w, hw, rfl⟩ := Option.map_eq_some_iff.1 hkey
    dsimp only at hb'
    split at hb'
    · cases hb'
      exact Batch.after_of_window rfl (hb w hw)
    · cases hb'

namespace Operator

/-- Windowing gives batches windows of its own; all other operators rely on those of their input. -/
def reliesOnInput : Operator → Bool
  | .windowing _ => false
  | _ => true

/-- The time bucket of a windowing. -/
def bucket? : Operator → Option Span
  | .windowing w => w.grouping.bucket
  | _ => none

/-- What the operator has yet to give out of what it has belongs to windows after `t`. -/
def Awaits (t : Instant) : Operator → Prop
  | .windowing w => w.Awaits t
  | .merging m => m.Awaits t
  | _ => True

variable {op op' : Operator}

theorem awaits_onWatermark (op : Operator) (t : Instant) : (op.onWatermark t).1.Awaits t := by
  cases op with
  | windowing w => exact w.awaits_onWatermark t
  | merging m => exact m.awaits_onWatermark t
  | intake _ => trivial
  | joining _ => trivial
  | reducing _ => trivial
  | alerting _ => trivial
  | publishing _ => trivial

/-- An operator stays of its kind and keeps its bucket. -/
theorem reliesOnInput_answer (op : Operator) (now : Instant) (r : Request) :
    (op.answer now r).1.reliesOnInput = op.reliesOnInput := by
  cases op <;> cases r <;> rfl

theorem bucket?_answer (op : Operator) (now : Instant) (r : Request) :
    (op.answer now r).1.bucket? = op.bucket? := by
  cases op with
  | windowing w =>
    cases r with
    | batch port b => exact congrArg Grouping.bucket (w.advances_onBatch b).grouping
    | watermark t => exact congrArg Grouping.bucket (w.advances_onWatermark t).grouping
    | close => rfl
  | _ => cases r <;> rfl

theorem Awaits.onBatch (h : op.Awaits t) (hbucket : op.bucket? = none) {port : Nat}
    (hb : op.reliesOnInput = true → b.Consistent ∧ b.After t)
    (hanswer : op.onBatch now port b = (op', .ok out)) :
    op'.Awaits t ∧ ∀ b' ∈ out.batches, b'.After t := by
  cases op with
  | intake op =>
    obtain ⟨rfl, hmapped⟩ := Prod.mk.inj hanswer
    obtain ⟨result, hresult, rfl⟩ := map_eq_ok.1 hmapped
    refine ⟨trivial, fun b' hb' => ?_⟩
    obtain rfl := Option.mem_toList.1 hb'
    exact (Intake.thins_onBatch hresult).after (hb rfl).1 (hb rfl).2
  | windowing op =>
    cases hanswer
    exact Windowing.Awaits.onBatch (P := fun _ _ => True) h (fun _ _ _ _ => trivial)
      (fun hstop _ hb => Windowing.after_of_mem_pieces hbucket hstop hb)
      fun _ _ _ _ _ _ => trivial
  | joining op =>
    cases hanswer
    exact ⟨trivial, fun b' hb' => op.after_onBatch (hb rfl).2 (Option.mem_toList.1 hb')⟩
  | merging op =>
    cases hanswer
    exact ⟨Merging.Awaits.onBatch h port (hb rfl).2, nofun⟩
  | reducing op =>
    obtain ⟨rfl, hmapped⟩ := Prod.mk.inj hanswer
    obtain ⟨result, hresult, rfl⟩ := map_eq_ok.1 hmapped
    refine ⟨trivial, fun b' hb' => ?_⟩
    obtain rfl := Option.mem_toList.1 hb'
    exact (Reducing.of_onBatch_eq_some hresult).1.after (hb rfl).1 (hb rfl).2
  | alerting op =>
    obtain ⟨rfl, hmapped⟩ := Prod.mk.inj hanswer
    obtain ⟨alerts, -, rfl⟩ := map_eq_ok.1 hmapped
    exact ⟨trivial, fun b' hb' => List.mem_singleton.1 hb' ▸ (hb rfl).2⟩
  | publishing output =>
    cases hanswer
    exact ⟨trivial, fun b' hb' => List.mem_singleton.1 hb' ▸ (hb rfl).2⟩

theorem Awaits.onWatermark (h : op.Awaits t) (hbucket : op.bucket? = none) (t' : Instant) :
    (op.onWatermark t').1.Awaits t ∧ ∀ b ∈ (op.onWatermark t').2.batches, b.After t := by
  cases op with
  | windowing w =>
    exact Windowing.Awaits.onWatermark (P := fun _ _ => True) h (fun _ _ _ _ => trivial)
      (fun hstop _ hb => Windowing.after_of_mem_pieces hbucket hstop hb) t'
  | merging m => exact Merging.Awaits.onWatermark h t'
  | intake _ => exact ⟨trivial, nofun⟩
  | joining _ => exact ⟨trivial, nofun⟩
  | reducing _ => exact ⟨trivial, nofun⟩
  | alerting _ => exact ⟨trivial, nofun⟩
  | publishing _ => exact ⟨trivial, nofun⟩

theorem Awaits.onClose (h : op.Awaits t) :
    op.onClose.1.Awaits t ∧ ∀ b ∈ op.onClose.2.batches, b.After t := by
  cases op with
  | windowing w => exact ⟨Windowing.Awaits.onClose h, nofun⟩
  | merging m => exact ⟨nofun, fun b hb => Merging.after_of_mem_mergeAll h hb⟩
  | intake _ => exact ⟨trivial, nofun⟩
  | joining _ => exact ⟨trivial, nofun⟩
  | reducing _ => exact ⟨trivial, nofun⟩
  | alerting _ => exact ⟨trivial, nofun⟩
  | publishing _ => exact ⟨trivial, nofun⟩

theorem Awaits.answer (h : op.Awaits t) (hbucket : op.bucket? = none)
    (hr : op.reliesOnInput = true → ∀ e ∈ r.batch?, e.2.Consistent ∧ e.2.After t)
    (hanswer : op.answer now r = (op', .ok out)) :
    op'.Awaits t ∧ ∀ b ∈ out.batches, b.After t := by
  cases r with
  | batch port b => exact h.onBatch hbucket (fun hrelies => hr hrelies _ rfl) hanswer
  | watermark t' =>
    cases hanswer
    exact h.onWatermark hbucket t'
  | close =>
    cases hanswer
    exact h.onClose

/-- The answer of a windowing whose panes have a property that new rows keep. What it gives out is
in pieces of such panes, and of those that end after `t` once it holds back nothing earlier. -/
theorem answer_of_allPanes {w : Windowing} {P : Instant → Batch → Prop}
    (hpanes : Windowing.AllPanes P w.panes)
    (hnew : ∀ e ∈ r.batch?, ∀ row ∈ e.2.rows,
      ∀ stop ∈ Windowing.coveringEnds w.period.reach w.every.reach row.time,
        Windowing.Extends P (w.grouping.keyFor e.2) e.2.columns row stop)
    (hanswer : (windowing w).answer now r = (op', .ok out)) :
    (∃ w', op' = .windowing w' ∧ Windowing.Advances w w' ∧ Windowing.AllPanes P w'.panes) ∧
      (∀ b ∈ out.batches, ∃ stop pane, P stop pane ∧ b ∈ w.pieces stop pane) ∧
      ∀ t, w.Awaits t → op'.Awaits t ∧
        ∀ b ∈ out.batches, ∃ stop pane, t < stop ∧ P stop pane ∧ b ∈ w.pieces stop pane := by
  have hpiece : ∀ {t stop pane b}, t < stop → P stop pane → b ∈ w.pieces stop pane →
      ∃ stop pane, t < stop ∧ P stop pane ∧ b ∈ w.pieces stop pane :=
    fun hlt hpane hb => ⟨_, _, hlt, hpane, hb⟩
  cases r with
  | batch port b =>
    cases hanswer
    obtain ⟨hkept, hout⟩ := hpanes.onBatch (b := b) fun row hrow stop hstop _ =>
      hnew _ rfl row hrow stop hstop
    exact ⟨⟨_, rfl, w.advances_onBatch b, hkept⟩, hout, fun t hawaits =>
      Windowing.Awaits.onBatch hawaits hpanes hpiece (hnew _ rfl)⟩
  | watermark t' =>
    cases hanswer
    obtain ⟨hkept, hout⟩ := hpanes.onWatermark t'
    exact ⟨⟨_, rfl, w.advances_onWatermark t', hkept⟩, hout, fun t hawaits =>
      Windowing.Awaits.onWatermark hawaits hpanes hpiece t'⟩
  | close =>
    cases hanswer
    exact ⟨⟨_, rfl, ⟨rfl, rfl, rfl, fun _ h => h⟩, Windowing.allPanes_empty⟩, nofun,
      fun t hawaits => ⟨Windowing.Awaits.onClose hawaits, nofun⟩⟩

/-! ## Runs -/

section Steps

variable {R : Instant → Batch → Prop} {Inv : Operator → Prop} {Fits : Request → Prop}
  {Holds : Instant → Operator → Prop} {Later : Instant → Request → Prop} {requests : List Request}

/-- Batches in front of some messages are held to no barrier among them. -/
theorem pairwise_map_batch_append (batches : List Batch) {messages : List Message}
    (h : messages.Pairwise (Message.Keeps R)) :
    (batches.map Message.batch ++ messages).Pairwise (Message.Keeps R) := by
  induction batches with
  | nil => exact h
  | cons b rest ih => exact List.pairwise_cons.2 ⟨fun _ _ _ ht => (nomatch ht), ih⟩

variable (hstep : ∀ {op op' : Operator} {r : Request} {out : Emitted}, Inv op → Fits r →
    op.answer now r = (op', .ok out) → Inv op' ∧ (∀ t ∈ r.watermark?, Holds t op') ∧
      ∀ t, Holds t op → Later t r → Holds t op' ∧ ∀ b ∈ out.batches, R t b)
include hstep

/-- Once `t` has passed, only what stands in the relation to it is given out. -/
theorem rel_of_mem_messages (h : Holds t op) (hop : Inv op)
    (hrequests : ∀ r ∈ requests, Fits r ∧ Later t r) :
    ∀ b, .batch b ∈ op.messages now requests → R t b := by
  refine forall_batch_mem_messages (fun op => Inv op ∧ Holds t op) (fun r => Fits r ∧ Later t r)
    ?_ ⟨hop, h⟩ hrequests
  intro op op' r out ⟨hop, h⟩ ⟨hfits, hr⟩ hanswer
  obtain ⟨hop', -, hholds⟩ := hstep hop hfits hanswer
  obtain ⟨h', hout⟩ := hholds t h hr
  exact ⟨⟨hop', h'⟩, hout⟩

variable (Inv Fits Holds Later) in
/-- The messages of an operator keep a relation to the barriers among them when what the operator
holds after a watermark comes to batches in that relation. -/
theorem pairwise_messages_of_step (hop : Inv op) (hrequests : ∀ r ∈ requests, Fits r)
    (hlater : requests.Pairwise fun r later => ∀ t ∈ r.watermark?, Later t later) :
    (op.messages now requests).Pairwise (Message.Keeps R) := by
  induction requests generalizing op with
  | nil => exact .nil
  | cons r rest ih =>
    obtain ⟨hfirst, hrest⟩ := List.forall_mem_cons.1 hrequests
    obtain ⟨hhead, htail⟩ := List.pairwise_cons.1 hlater
    cases hanswer : op.answer now r with
    | mk op' answer =>
      cases answer with
      | error cause =>
        rw [messages_cons_error hanswer]
        exact .nil
      | ok out =>
        obtain ⟨hop', hholds, -⟩ := hstep hop hfirst hanswer
        rw [messages_cons_ok hanswer, List.append_assoc]
        refine pairwise_map_batch_append out.batches ?_
        cases r with
        | batch port b => exact ih hop' hrest htail
        | close => exact ih hop' hrest htail
        | watermark t =>
          refine List.pairwise_cons.2 ⟨fun m hm => ?_, ih hop' hrest htail⟩
          rintro _ ⟨⟩ b hb
          obtain rfl := Message.eq_batch_of_mem hb
          exact rel_of_mem_messages hstep (hholds t rfl) hop'
            (fun r hr => ⟨hrest r hr, hhead r hr t rfl⟩) b hm

end Steps

/-- The answer to a watermark leaves what belongs to windows after it. -/
theorem awaits_of_answer (hanswer : op.answer now r = (op', .ok out)) :
    ∀ t ∈ r.watermark?, op'.Awaits t := by
  rintro t ht
  cases r with
  | watermark t' =>
    cases ht
    cases hanswer
    exact awaits_onWatermark op t
  | batch port b => cases ht
  | close => cases ht

theorem pairwise_messages {requests : List Request} (hbucket : op.bucket? = none)
    (hrequests : op.reliesOnInput = true →
      (∀ r ∈ requests, ∀ e ∈ r.batch?, e.2.Consistent) ∧ Request.InTime requests) :
    (op.messages now requests).Pairwise KeepsBarrier := by
  refine pairwise_messages_of_step (R := fun t b => b.After t)
    (fun op' => op'.bucket? = none ∧ op'.reliesOnInput = op.reliesOnInput) (fun _ => True)
    Awaits (fun t r => op.reliesOnInput = true → ∀ e ∈ r.batch?, e.2.Consistent ∧ e.2.After t)
    ?_ ⟨hbucket, rfl⟩ (fun _ _ => trivial) ?_
  · rintro op₁ op₂ r out ⟨hbucket, hkind⟩ - hanswer
    have hkind' := reliesOnInput_answer op₁ now r
    have hbucket' := bucket?_answer op₁ now r
    rw [hanswer] at hkind' hbucket'
    refine ⟨⟨hbucket'.trans hbucket, hkind'.trans hkind⟩, awaits_of_answer hanswer,
      fun t hawaits hr => ?_⟩
    exact hawaits.answer hbucket (fun hrelies => hr (hkind ▸ hrelies)) hanswer
  · cases hrelies : op.reliesOnInput with
    | false => exact List.pairwise_of_forall fun _ _ _ _ => nofun
    | true =>
      obtain ⟨hconsistent, hinTime⟩ := hrequests hrelies
      refine hinTime.imp_of_mem fun _ hlater hkeeps t ht _ e he => ?_
      exact ⟨hconsistent _ hlater e he, hkeeps t ht e he⟩

end Operator

namespace Stage

theorem pairwise_sent_run {R : Instant → Batch → Prop} {s : Stage} {inbox : List Envelope}
    (h : (s.operator.messages now (s.marks.requests inbox)).Pairwise (Message.Keeps R)) :
    (s.run now inbox).2.1.sent.Pairwise (Message.Keeps R) := by
  obtain ⟨body, hsent, hbody⟩ := s.sent_run now inbox
  rw [hsent]
  exact pairwise_append_close (h.sublist hbody.sublist)

/-- What a stage sends keeps the barriers that it sends, unless it windows with a bucket. What it
takes has to keep the barriers of its ports, unless it windows. -/
theorem run_keeps_barriers (now : Instant) (id : String) (op : Operator) (ports : Nat)
    (inbox : List Envelope) (hbucket : op.bucket? = none)
    (hinbox : op.reliesOnInput = true →
      (∀ e ∈ inbox, ∀ b ∈ e.message.batch?, b.checkConsistency = .ok ()) ∧
        ∀ port, (messagesAt port inbox).Pairwise KeepsBarrier) :
    ((new id op ports).run now inbox).2.1.sent.Pairwise KeepsBarrier := by
  refine pairwise_sent_run (R := fun t b => b.After t)
    (Operator.pairwise_messages hbucket fun hrelies => ?_)
  obtain ⟨hconsistent, hkeeps⟩ := hinbox hrelies
  refine ⟨fun r hr e he => ?_, inTime_requests ports hkeeps⟩
  cases r with
  | batch port b =>
    cases he
    exact Batch.checkConsistency_eq_ok_iff.1 (hconsistent _ (mem_of_batch_mem_requests hr) b rfl)
  | watermark t => cases he
  | close => cases he

/-- The first input of a union passes 10 before the second one has a batch for the window that ends
at 10. The union passes 10 on once the second input has closed. -/
theorem run_keeps_barriers_of_two :
    let batch (stop : Int64) : Batch :=
      ⟨"m", ∅, ["v"], [⟨⟨stop - 1⟩, [.null]⟩], some ⟨⟨stop - 10⟩, ⟨stop⟩⟩⟩
    let inbox : List Envelope :=
      [⟨0, .batch (batch 10)⟩, ⟨0, .barrier ⟨10⟩⟩, ⟨1, .batch (batch 10)⟩,
        ⟨0, .batch (batch 20)⟩, ⟨1, .close⟩, ⟨0, .close⟩]
    ((new "union" (.merging ⟨none, ∅⟩) 2).run .epoch inbox).2.1.sent.Pairwise KeepsBarrier := by
  intro batch inbox
  refine run_keeps_barriers .epoch "union" (.merging ⟨none, ∅⟩) 2 inbox rfl fun _ => ⟨?_, ?_⟩
  · intro e he b hb
    simp only [inbox, List.mem_cons, List.not_mem_nil, or_false] at he
    rcases he with rfl | rfl | rfl | rfl | rfl | rfl <;> cases hb <;> rfl
  · intro port
    match port with
    | 0 => decide +kernel
    | 1 => decide +kernel
    | n + 2 => exact .nil

end Stage

end SeriesPipeline
