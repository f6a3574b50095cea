import SeriesPipeline.Proofs.Operator.Answers
import SeriesPipeline.Proofs.Stage.Requests

/-!
# Messages of stages

What a stage sends is what its operator answers to the requests of its inbox, with a barrier after
each watermark. A stage that fails stops there, so it sends a part of that from the front.
-/

namespace SeriesPipeline

namespace Operator

/-- What an operator's answers come to as messages. The first fault ends them. -/
def messages (now : Instant) (op : Operator) : List Request → List Message
  | [] => []
  | r :: rest =>
    match op.answer now r with
    | (op, .ok out) =>
      out.batches.map .batch ++ (r.watermark?.map .barrier).toList ++ messages now op rest
    | (_, .error _) => []

variable {now : Instant} {op : Operator} {requests : List Request}

theorem messages_cons_ok {op' : Operator} {out : Emitted} {r : Request}
    (h : op.answer now r = (op', .ok out)) (rest : List Request) :
    op.messages now (r :: rest) =
      out.batches.map .batch ++ (r.watermark?.map .barrier).toList ++ op'.messages now rest := by
  rw [messages, h]

theorem messages_cons_error {op' : Operator} {cause : StageFault} {r : Request}
    (h : op.answer now r = (op', .error cause)) (rest : List Request) :
    op.messages now (r :: rest) = [] := by
  rw [messages, h]

/-- A message is a batch that some answer gives out, or the barrier of a watermark. -/
theorem mem_messages {m : Message} (h : m ∈ op.messages now requests) :
    (∃ b, m = .batch b) ∨ ∃ t, m = .barrier t ∧ .watermark t ∈ requests := by
  induction requests generalizing op with
  | nil => cases h
  | cons r rest ih =>
    cases hanswer : op.answer now r with
    | mk op' out =>
      cases out with
      | error cause =>
        rw [messages_cons_error hanswer] at h
        cases h
      | ok out =>
        rw [messages_cons_ok hanswer, List.mem_append, List.mem_append] at h
        rcases h with (h | h) | h
        · obtain ⟨b, -, rfl⟩ := List.mem_map.1 h
          exact .inl ⟨b, rfl⟩
        · cases r with
          | watermark t => exact .inr ⟨t, List.mem_singleton.1 h, List.mem_cons_self⟩
          | batch port b => cases h
          | close => cases h
        · exact (ih h).imp_right fun ⟨t, hm, ht⟩ => ⟨t, hm, List.mem_cons_of_mem _ ht⟩

theorem close_notMem_messages : .close ∉ op.messages now requests := by
  intro h
  obtain ⟨b, hm⟩ | ⟨t, hm, -⟩ := mem_messages h
  · cases hm
  · cases hm

/-- What every answer keeps, all batches among the messages have. -/
theorem forall_batch_mem_messages (Inv : Operator → Prop) (Suits : Request → Prop)
    {P : Batch → Prop}
    (hstep : ∀ {op op' : Operator} {r : Request} {out : Emitted}, Inv op → Suits r →
      op.answer now r = (op', .ok out) → Inv op' ∧ ∀ b ∈ out.batches, P b)
    (hop : Inv op) (hrequests : ∀ r ∈ requests, Suits r) :
    ∀ b, .batch b ∈ op.messages now requests → P b := by
  induction requests generalizing op with
  | nil => exact fun _ hb => nomatch hb
  | cons r rest ih =>
    intro b hb
    cases hanswer : op.answer now r with
    | mk op' answer =>
      cases answer with
      | error cause =>
        rw [messages_cons_error hanswer] at hb
        cases hb
      | ok out =>
        obtain ⟨hnext, hout⟩ := hstep hop (hrequests r List.mem_cons_self) hanswer
        rw [messages_cons_ok hanswer, List.mem_append, List.mem_append] at hb
        rcases hb with (hb | hb) | hb
        · obtain ⟨_, hb, ⟨⟩⟩ := List.mem_map.1 hb
          exact hout b hb
        · obtain ⟨_, -, ⟨⟩⟩ := Option.map_eq_some_iff.1 (Option.mem_toList.1 hb)
        · exact ih hnext (fun r hr => hrequests r (List.mem_cons_of_mem _ hr)) b hb

end Operator

namespace Stage

variable {now : Instant}

theorem sent_advance (s : Stage) (mark : Option Instant) (requests : List Request) :
    (s.advance mark).2.sent ++ (s.advance mark).1.operator.messages now requests =
      s.operator.messages now ((mark.map Request.watermark).toList ++ requests) := by
  cases mark with
  | none => rfl
  | some t =>
    exact (Operator.messages_cons_ok (r := .watermark t) rfl requests).symm

theorem sent_finish (s : Stage) : s.finish.2.sent = s.operator.messages now [.close] := by
  rw [Operator.messages_cons_ok (r := .close) rfl]
  exact (List.append_nil _).symm.trans (List.append_nil _).symm

/-- A stage sends what its operator answers to the requests of the inbox, as far as it gets. -/
theorem sent_process (s : Stage) (inbox : List Envelope) :
    (s.process now inbox).2.1.sent <+: s.operator.messages now (s.marks.requests inbox) := by
  induction inbox generalizing s with
  | nil => exact (sent_finish s).symm ▸ List.prefix_refl _
  | cons e rest ih =>
    rw [process, receive]
    cases hport : s.marks.ports[e.port]? with
    | none => exact List.nil_prefix
    | some port =>
      have hisOpen : s.marks.isOpen e.port = port.isOpen := by
        rw [Watermarks.isOpen, hport]
        rfl
      rw [Watermarks.requests, hisOpen]
      dsimp only
      cases port.isOpen with
      | false => exact ih s
      | true =>
        rw [if_pos rfl, if_pos rfl]
        cases e.message with
        | batch b =>
          dsimp only [takeBatch]
          cases hanswer : s.operator.onBatch now e.port b with
          | mk op out =>
            cases out with
            | error cause => exact List.nil_prefix
            | ok out =>
              have hnone : ((Request.batch e.port b).watermark?.map Message.barrier).toList = [] :=
                rfl
              have hrest := ih ({ s with batchesIn := s.batchesIn + 1 }.emit op out).1
              rw [Operator.messages_cons_ok (r := .batch e.port b) hanswer, hnone, List.append_nil]
              exact (List.prefix_append_right_inj (out.batches.map .batch)).2 hrest
        | barrier t =>
          dsimp only [takeBarrier]
          rw [← sent_advance { s with marks := (s.marks.observe e.port t).1 }]
          have hrest := ih ({ s with marks := (s.marks.observe e.port t).1 }.advance
            (s.marks.observe e.port t).2).1
          rw [marks_advance] at hrest
          exact (List.prefix_append_right_inj _).2 hrest
        | close =>
          dsimp only [takeClose]
          rw [← sent_advance { s with marks := (s.marks.close e.port).1 }, marks_advance]
          have hrest := ih ({ s with marks := (s.marks.close e.port).1 }.advance
            (s.marks.close e.port).2).1
          rw [marks_advance] at hrest
          by_cases hall : (s.marks.close e.port).1.allClosed = true
          · rw [if_pos hall, if_pos hall, ← sent_finish]
            exact List.prefix_refl _
          · rw [if_neg hall, if_neg hall]
            exact (List.prefix_append_right_inj _).2 hrest

/-- Whatever ends a stage, it sends a part of its operator's messages and then its close. -/
theorem sent_run (s : Stage) (now : Instant) (inbox : List Envelope) :
    ∃ body, (s.run now inbox).2.1.sent = body ++ [.close] ∧
      body <+: s.operator.messages now (s.marks.requests inbox) :=
  ⟨_, rfl, s.sent_process inbox⟩

/-- The close that a stage sends last is the only one. -/
theorem closes_run (s : Stage) (now : Instant) (inbox : List Envelope) :
    ∃ body, .close ∉ body ∧ (s.run now inbox).2.1.sent = body ++ [.close] := by
  obtain ⟨body, hsent, hbody⟩ := s.sent_run now inbox
  exact ⟨body, fun hclose => Operator.close_notMem_messages (hbody.subset hclose), hsent⟩

/-- A stage sends no batch that is not among its operator's messages. -/
theorem batch_mem_of_run {s : Stage} {inbox : List Envelope} {b : Batch}
    (h : b ∈ batchesOf (s.run now inbox).2.1.sent) :
    .batch b ∈ s.operator.messages now (s.marks.requests inbox) := by
  obtain ⟨body, hsent, hbody⟩ := s.sent_run now inbox
  rw [hsent, batchesOf_append, List.mem_append] at h
  obtain ⟨m, hm, hb⟩ := List.mem_filterMap.1 (h.resolve_right List.not_mem_nil)
  cases m with
  | batch b' =>
    cases hb
    exact hbody.subset hm
  | barrier t => cases hb
  | close => cases hb

end Stage

end SeriesPipeline
