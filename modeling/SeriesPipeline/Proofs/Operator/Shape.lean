import SeriesPipeline.Proofs.Joining.Shape
import SeriesPipeline.Proofs.Merging.Shape
import SeriesPipeline.Proofs.Operator.Answers
import SeriesPipeline.Proofs.Windowing.Shape

/-!
# The shape of answers

Every operator gives out well-formed batches for well-formed batches, in any sequence of requests.
An intake does so for all batches, since it refuses the others.
-/

namespace SeriesPipeline

namespace Intake

theorem fits_onBatch {op : Intake} {distinct enclosed : Prop} {b b' : Batch}
    (h : op.onBatch b = .ok (some b')) (hb : enclosed → b.Enclosed) :
    b'.Fits distinct enclosed := by
  obtain ⟨hconsistent, rows, hrows, hne, rfl⟩ := of_onBatch_eq_some h
  have hthins : b.Thins { b with rows } := ⟨rfl, hrows.map _⟩
  refine ⟨⟨hne, fun r hr => hconsistent.width r (hrows.subset hr), ?_⟩,
    fun _ => hconsistent.columns, fun henclosed => hthins.enclosed (hb henclosed)⟩
  exact List.pairwise_map.2 (hconsistent.ordered.sublist hrows)

end Intake

namespace Reducing

theorem fits_onBatch {op : Reducing} {distinct enclosed : Prop} {b b' : Batch}
    (h : op.onBatch b = .ok (some b')) (hb : b.Fits distinct enclosed) :
    b'.Fits distinct enclosed := by
  obtain ⟨hthins, hne, hcolumns, hwidth⟩ := of_onBatch_eq_some h
  refine ⟨⟨hne, fun r hr => ?_, hb.wellFormed.ordered.sublist hthins.times⟩, fun _ => ?_,
    fun henclosed => hthins.enclosed (hb.window henclosed)⟩
  · rw [hwidth r hr, hcolumns, List.length_singleton]
  · rw [hcolumns]
    exact List.nodup_singleton _

end Reducing

namespace Operator

/-- What the operator has buffered has its shape. -/
def Shaped (distinct enclosed : Prop) : Operator → Prop
  | .windowing w => w.Shaped distinct
  | .joining j => j.Shaped enclosed
  | .merging m => m.Shaped enclosed
  | _ => True

/-- What has to be true of a batch that the operator takes. -/
def Suits (distinct enclosed : Prop) : Operator → Batch → Prop
  | .intake _, b => enclosed → b.Enclosed
  | _, b => b.Fits distinct enclosed

/-- What is true of a batch that the operator gives out. A windowing gives it a window of its own,
and a join names the columns anew. -/
def Promises (distinct enclosed : Prop) : Operator → Batch → Prop
  | .windowing _, b => b.Fits distinct True
  | .joining _, b => b.Fits False enclosed
  | _, b => b.Fits distinct enclosed

variable {distinct enclosed : Prop} {op : Operator} {now : Instant} {r : Request} {b : Batch}
  {out : Emitted}

theorem suits_answer (op : Operator) (now : Instant) (r : Request) :
    (op.answer now r).1.Suits distinct enclosed = op.Suits distinct enclosed := by
  cases op <;> cases r <;> rfl

theorem promises_answer (op : Operator) (now : Instant) (r : Request) :
    (op.answer now r).1.Promises distinct enclosed = op.Promises distinct enclosed := by
  cases op <;> cases r <;> rfl

section Steps

variable (h : op.Shaped distinct enclosed)
include h

theorem Shaped.onBatch (hb : op.Suits distinct enclosed b) (port : Nat) :
    (op.onBatch now port b).1.Shaped distinct enclosed ∧ ∀ out,
      (op.onBatch now port b).2 = .ok out → ∀ b' ∈ out.batches,
        op.Promises distinct enclosed b' := by
  cases op with
  | intake i =>
    refine ⟨trivial, fun out hout b' hb' => ?_⟩
    obtain ⟨result, hresult, rfl⟩ := map_eq_ok.1 hout
    obtain rfl := Option.mem_toList.1 hb'
    exact Intake.fits_onBatch hresult hb
  | windowing w =>
    obtain ⟨hw, hbatches⟩ := Windowing.Shaped.onBatch h hb.wellFormed.width hb.columns
    refine ⟨hw, fun out hout b' hb' => ?_⟩
    cases hout
    exact hbatches b' hb'
  | joining j =>
    obtain ⟨hj, hbatch⟩ := Joining.Shaped.onBatch h hb port
    refine ⟨hj, fun out hout b' hb' => ?_⟩
    cases hout
    exact hbatch b' (Option.mem_toList.1 hb')
  | merging m =>
    refine ⟨Merging.Shaped.onBatch h hb port, fun out hout b' hb' => ?_⟩
    cases hout
    cases hb'
  | reducing m =>
    refine ⟨trivial, fun out hout b' hb' => ?_⟩
    obtain ⟨result, hresult, rfl⟩ := map_eq_ok.1 hout
    obtain rfl := Option.mem_toList.1 hb'
    exact Reducing.fits_onBatch hresult hb
  | alerting a =>
    refine ⟨trivial, fun out hout b' hb' => ?_⟩
    obtain ⟨alerts, -, rfl⟩ := map_eq_ok.1 hout
    rw [List.mem_singleton.1 hb']
    exact hb
  | publishing output =>
    refine ⟨trivial, fun out hout b' hb' => ?_⟩
    cases hout
    rw [List.mem_singleton.1 hb']
    exact hb

theorem Shaped.onWatermark (t : Instant) :
    (op.onWatermark t).1.Shaped distinct enclosed ∧
      ∀ b ∈ (op.onWatermark t).2.batches, op.Promises distinct enclosed b := by
  cases op with
  | windowing w => exact Windowing.Shaped.onWatermark h t
  | joining j => exact ⟨Joining.Shaped.onWatermark h t, nofun⟩
  | merging m =>
    obtain ⟨hm, hbatches⟩ := Merging.Shaped.onWatermark h t
    exact ⟨hm, fun b hb => (hbatches b hb).mono fun _ => trivial⟩
  | intake _ => exact ⟨trivial, nofun⟩
  | reducing _ => exact ⟨trivial, nofun⟩
  | alerting _ => exact ⟨trivial, nofun⟩
  | publishing _ => exact ⟨trivial, nofun⟩

theorem Shaped.onClose : op.onClose.1.Shaped distinct enclosed ∧
    ∀ b ∈ op.onClose.2.batches, op.Promises distinct enclosed b := by
  cases op with
  | windowing w => exact ⟨Windowing.Shaped.onClose h, nofun⟩
  | joining j => exact ⟨Joining.Shaped.onClose h, nofun⟩
  | merging m =>
    obtain ⟨hm, hbatches⟩ := Merging.Shaped.onClose h
    exact ⟨hm, fun b hb => (hbatches b hb).mono fun _ => trivial⟩
  | intake _ => exact ⟨trivial, nofun⟩
  | reducing _ => exact ⟨trivial, nofun⟩
  | alerting _ => exact ⟨trivial, nofun⟩
  | publishing _ => exact ⟨trivial, nofun⟩

theorem Shaped.answer (now : Instant) (hr : ∀ e ∈ r.batch?, op.Suits distinct enclosed e.2) :
    (op.answer now r).1.Shaped distinct enclosed ∧ ∀ out, (op.answer now r).2 = .ok out →
      ∀ b ∈ out.batches, op.Promises distinct enclosed b := by
  cases r with
  | batch port b => exact h.onBatch (hr _ rfl) port
  | watermark t =>
    obtain ⟨hop, hbatches⟩ := h.onWatermark t
    exact ⟨hop, fun out hout => Except.ok.inj hout ▸ hbatches⟩
  | close =>
    obtain ⟨hop, hbatches⟩ := h.onClose
    exact ⟨hop, fun out hout => Except.ok.inj hout ▸ hbatches⟩

/-- What every request keeps, a sequence of them does, whether or not some of them fail. -/
theorem Shaped.serve {calls : List (Instant × Request)}
    (hcalls : ∀ e ∈ Request.batches (calls.map (·.2)), op.Suits distinct enclosed e.2)
    (hout : .ok out ∈ (op.serve calls).2) :
    ∀ b ∈ out.batches, op.Promises distinct enclosed b := by
  induction calls generalizing op with
  | nil => cases hout
  | cons call rest ih =>
    obtain ⟨now, r⟩ := call
    obtain ⟨hfirst, hrest⟩ := Request.forall_mem_batches_cons.1 hcalls
    obtain ⟨hnext, hbatches⟩ := h.answer now hfirst
    rcases List.mem_cons.1 hout with hout | hout
    · exact hbatches out hout.symm
    · -- the operator after the first request is of the same kind
      rw [← promises_answer op now r]
      rw [← suits_answer op now r] at hrest
      exact ih hnext hrest hout

end Steps

end Operator

end SeriesPipeline
