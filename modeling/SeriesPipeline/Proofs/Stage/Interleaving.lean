import SeriesPipeline.Proofs.Operator.Keys
import SeriesPipeline.Proofs.Stage.Promises

/-!
# Interleaved streams

Each port of a stage has a stream of messages, and the inbox has them in any order that keeps the
order of each stream. Whatever that order is, the operator is handed every batch, and none of a
window that a watermark has passed.
-/

namespace SeriesPipeline

/-- The inbox has the messages of all streams, and those of each stream in order. -/
def Interleaves (streams : List (List Message)) (inbox : List Envelope) : Prop :=
  ∀ port, messagesAt port inbox = (streams[port]?).getD []

/-- A stream that ends with its close, and whose batches belong to windows after all barriers that
came before. -/
structure Delivers (stream : List Message) : Prop where
  closes : ∃ body, .close ∉ body ∧ stream = body ++ [.close]
  keeps : stream.Pairwise KeepsBarrier

theorem Interleaves.port_lt {streams : List (List Message)} {inbox : List Envelope}
    (h : Interleaves streams inbox) : ∀ e ∈ inbox, e.port < streams.length := by
  intro e he
  have hmem := mem_messagesAt.2 he
  rw [h e.port] at hmem
  by_contra hport
  rw [List.getElem?_eq_none (Nat.le_of_not_lt hport)] at hmem
  cases hmem

theorem Interleaves.pairwise {streams : List (List Message)} {inbox : List Envelope}
    (h : Interleaves streams inbox) (hstreams : ∀ s ∈ streams, Delivers s) (port : Nat) :
    (messagesAt port inbox).Pairwise KeepsBarrier := by
  rw [h port]
  cases hs : streams[port]? with
  | none => exact .nil
  | some s => exact (hstreams s (List.mem_of_getElem? hs)).keeps

/-- The batch of an envelope, with its port. -/
def Envelope.batch? (e : Envelope) : Option (Nat × Batch) := e.message.batch?.map (e.port, ·)

theorem fromPort_batches (port : Nat) (inbox : List Envelope) :
    Request.fromPort port (inbox.filterMap Envelope.batch?) =
      batchesOf (messagesAt port inbox) := by
  induction inbox with
  | nil => rfl
  | cons e rest ih =>
    obtain ⟨port', message⟩ := e
    rw [messagesAt_cons]
    cases message with
    | batch b =>
      have hbatch : (⟨port', .batch b⟩ : Envelope).batch? = some (port', b) := rfl
      rw [List.filterMap_cons_some hbatch, Request.fromPort_cons, ih]
      split <;> rfl
    | barrier t =>
      have hbatch : (⟨port', .barrier t⟩ : Envelope).batch? = none := rfl
      rw [List.filterMap_cons_none hbatch, ih]
      split <;> rfl
    | close =>
      have hbatch : (⟨port', .close⟩ : Envelope).batch? = none := rfl
      rw [List.filterMap_cons_none hbatch, ih]
      split <;> rfl

/-! ## What is left of an inbox -/

/-- What is left of a port's stream: nothing once the port is closed, and before that a stream that
ends with its close. -/
def Port.Expects (port : Port) (stream : List Message) : Prop :=
  if port.isOpen then ∃ body, .close ∉ body ∧ stream = body ++ [.close] else stream = []

theorem Port.Expects.tail {port : Port} {m : Message} {stream : List Message} (hm : m ≠ .close)
    (h : port.Expects (m :: stream)) : port.Expects stream := by
  rw [Port.Expects] at h ⊢
  by_cases hopen : port.isOpen = true
  · rw [if_pos hopen] at h ⊢
    obtain ⟨body, hbody, heq⟩ := h
    cases body with
    | nil => exact absurd (List.cons.inj heq).1 hm
    | cons m' body =>
      exact ⟨body, fun hc => hbody (List.mem_cons_of_mem _ hc), (List.cons.inj heq).2⟩
  · rw [if_neg hopen] at h
    cases h

theorem Port.Expects.close {port : Port} {stream : List Message}
    (h : port.Expects (.close :: stream)) : stream = [] := by
  rw [Port.Expects] at h
  by_cases hopen : port.isOpen = true
  · rw [if_pos hopen] at h
    obtain ⟨body, hbody, heq⟩ := h
    cases body with
    | nil => exact (List.cons.inj heq).2
    | cons m body =>
      rw [← (List.cons.inj heq).1] at hbody
      exact absurd List.mem_cons_self hbody
  · rw [if_neg hopen] at h
    cases h

/-- What is left of an inbox agrees with the ports that are open. -/
structure Watermarks.Expects (w : Watermarks) (inbox : List Envelope) : Prop where
  known : ∀ e ∈ inbox, e.port < w.ports.length
  ports : w.EachPort Port.Expects inbox

namespace Watermarks

theorem Expects.step {w w' : Watermarks} {e : Envelope} {rest : List Envelope} {f : Port → Port}
    (h : w.Expects (e :: rest)) (hports : w'.ports = w.ports.modify e.port f)
    (hport : ∀ port stream, port.Expects (e.message :: stream) → (f port).Expects stream) :
    w'.Expects rest := by
  refine ⟨fun e' he' => ?_, h.ports.step hports hport⟩
  rw [hports, List.length_modify]
  exact h.known e' (List.mem_cons_of_mem _ he')

theorem Expects.batch {w : Watermarks} {port : Nat} {b : Batch} {rest : List Envelope}
    (h : w.Expects (⟨port, .batch b⟩ :: rest)) : w.Expects rest :=
  h.step (f := id) (List.modify_id ..).symm fun _ _ hp => hp.tail Message.noConfusion

theorem Expects.barrier {w : Watermarks} {port : Nat} {t : Instant} {rest : List Envelope}
    (h : w.Expects (⟨port, .barrier t⟩ :: rest)) : (w.observe port t).1.Expects rest :=
  h.step (f := (Port.observe · t)) (ports_advance _) fun _ _ hp => hp.tail Message.noConfusion

theorem Expects.close {w : Watermarks} {port : Nat} {rest : List Envelope}
    (h : w.Expects (⟨port, .close⟩ :: rest)) : (w.close port).1.Expects rest :=
  h.step (f := ({ · with isOpen := false })) (ports_advance _) fun _ _ hp => hp.close

/-- The port of an envelope that is still to come is open. -/
theorem Expects.isOpen {w : Watermarks} {inbox : List Envelope} (h : w.Expects inbox)
    {e : Envelope} (he : e ∈ inbox) : w.isOpen e.port = true := by
  have hport := List.getElem?_eq_getElem (h.known e he)
  rw [Watermarks.isOpen, hport, Option.any_some]
  -- nothing is left for a port that has closed
  by_contra hclosed
  have hexpects := h.ports e.port _ hport
  rw [Port.Expects, if_neg hclosed] at hexpects
  exact List.ne_nil_of_mem (mem_messagesAt.2 he) hexpects

/-- Requests before a close that hand over these batches. -/
structure Hands (front : List Request) (log : List (Nat × Batch)) : Prop where
  unclosed : .close ∉ front
  batches : Request.batches front = log

theorem hands_nil : Hands [] [] := ⟨List.not_mem_nil, rfl⟩

theorem Hands.cons {r : Request} {front : List Request} {log : List (Nat × Batch)}
    (h : Hands front log) (hr : r ≠ .close) : Hands (r :: front) (r.batch?.toList ++ log) := by
  constructor
  · intro hc
    rcases List.mem_cons.1 hc with hc | hc
    · exact hr hc.symm
    · exact h.unclosed hc
  · rw [Request.batches, List.filterMap_cons, ← Request.batches, h.batches]
    cases r.batch? <;> rfl

theorem Hands.mark {front : List Request} {log : List (Nat × Batch)} (h : Hands front log)
    (mark : Option Instant) : Hands ((mark.map Request.watermark).toList ++ front) log := by
  cases mark with
  | none => exact h
  | some t => exact h.cons (r := .watermark t) Request.noConfusion

/-- An inbox comes down to its batches, some watermarks, and one close at the end. -/
theorem Expects.requests {w : Watermarks} {inbox : List Envelope} (h : w.Expects inbox) :
    ∃ front, w.requests inbox = front ++ [.close] ∧
      Hands front (inbox.filterMap Envelope.batch?) := by
  induction inbox generalizing w with
  | nil => exact ⟨[], rfl, hands_nil⟩
  | cons e rest ih =>
    rw [Watermarks.requests, if_pos (h.isOpen List.mem_cons_self)]
    obtain ⟨number, message⟩ := e
    cases message with
    | batch b =>
      obtain ⟨front, hrequests, hfront⟩ := ih h.batch
      exact ⟨.batch number b :: front, congrArg _ hrequests,
        hfront.cons (r := .batch number b) Request.noConfusion⟩
    | barrier t =>
      obtain ⟨front, hrequests, hfront⟩ := ih h.barrier
      refine ⟨_, ?_, hfront.mark (w.observe number t).2⟩
      rw [List.append_assoc, ← hrequests]
    | close =>
      obtain ⟨front, hrequests, hfront⟩ := ih h.close
      by_cases hall : (w.close number).1.allClosed = true
      · -- an envelope that is left would need an open port
        have hrest : rest = [] := by
          rw [List.eq_nil_iff_forall_not_mem]
          intro e he
          obtain ⟨port, hport, hopen⟩ := (Option.any_eq_true _ _).1 (h.close.isOpen he)
          have hclosed := List.all_eq_true.1 hall port (List.mem_of_getElem? hport)
          rw [hopen] at hclosed
          cases hclosed
        subst hrest
        refine ⟨_, ?_, hands_nil.mark (w.close number).2⟩
        dsimp only
        rw [if_pos hall, List.append_nil]
      · refine ⟨_, ?_, hfront.mark (w.close number).2⟩
        dsimp only
        rw [if_neg hall, List.append_assoc, ← hrequests]

theorem expects_new {streams : List (List Message)} {inbox : List Envelope}
    (h : Interleaves streams inbox) (hstreams : ∀ s ∈ streams, Delivers s) :
    (new streams.length).Expects inbox where
  known e he := by
    rw [new, List.length_replicate]
    exact h.port_lt e he
  ports i port hport := by
    rw [new, List.getElem?_replicate] at hport
    split at hport
    · rename_i hi
      cases hport
      rw [h i, List.getElem?_eq_getElem hi, Option.getD_some, Port.Expects, if_pos rfl]
      exact (hstreams _ (List.getElem_mem hi)).closes
    · cases hport

end Watermarks

/-- The batches of all streams, with the numbers of their streams; those of one stream in order. -/
def Carries (streams : List (List Message)) (log : List (Nat × Batch)) : Prop :=
  ∀ port, Request.fromPort port log = batchesOf ((streams[port]?).getD [])

theorem Carries.fromPort_eq {streams : List (List Message)} {log : List (Nat × Batch)}
    (h : Carries streams log) {port : Nat} (hport : port < streams.length) :
    Request.fromPort port log = batchesOf streams[port] := by
  rw [h port, List.getElem?_eq_getElem hport, Option.getD_some]

theorem Carries.port_lt {streams : List (List Message)} {log : List (Nat × Batch)}
    (h : Carries streams log) : ∀ e ∈ log, e.1 < streams.length := by
  intro e he
  have hmem : e.2 ∈ Request.fromPort e.1 log := Request.mem_fromPort.2 he
  by_contra hport
  rw [h e.1, List.getElem?_eq_none (Nat.le_of_not_lt hport)] at hmem
  cases hmem

theorem Carries.exists_iff {streams : List (List Message)} {log : List (Nat × Batch)}
    (h : Carries streams log) (p : Batch → Prop) :
    (∃ e ∈ log, p e.2) ↔ ∃ s ∈ streams, ∃ b ∈ batchesOf s, p b := by
  constructor
  · rintro ⟨⟨port, b⟩, he, hb⟩
    have hport : port < streams.length := h.port_lt _ he
    refine ⟨streams[port], List.getElem_mem hport, b, ?_, hb⟩
    rw [← h.fromPort_eq hport]
    exact Request.mem_fromPort.2 he
  · rintro ⟨s, hs, b, hmem, hb⟩
    obtain ⟨port, hport, rfl⟩ := List.getElem_of_mem hs
    rw [← h.fromPort_eq hport] at hmem
    exact ⟨(port, b), Request.mem_fromPort.1 hmem, hb⟩

theorem Carries.alignmentWindow_isSome {streams : List (List Message)} {log : List (Nat × Batch)}
    (h : Carries streams log) (hrows : ∀ s ∈ streams, ∀ b ∈ batchesOf s, b.rows ≠ []) :
    ∀ e ∈ log, e.2.alignmentWindow.isSome := by
  intro e he
  obtain ⟨s, hs, b, hb, heq⟩ := (h.exists_iff (· = e.2)).1 ⟨e, he, rfl⟩
  rw [← heq]
  exact Request.alignmentWindow_isSome (hrows s hs b hb)

/-- The alignments of the batches in some streams. -/
def keysIn (align : Batch → Option Alignment) (streams : List (List Message)) : Finset Alignment :=
  (streams.flatMap fun s => (batchesOf s).filterMap align).toFinset

theorem Carries.keysOf_eq {streams : List (List Message)} {log : List (Nat × Batch)}
    (h : Carries streams log) (align : Batch → Option Alignment) :
    keysOf align log = keysIn align streams := by
  ext key
  rw [mem_keysOf, h.exists_iff fun b => align b = some key, keysIn, List.mem_toFinset]
  simp only [List.mem_flatMap, List.mem_filterMap]

/-- Whatever the order of the inbox, the operator gets the batches of every stream in order, each in
time, and then the end of its input. -/
theorem Interleaves.requests {streams : List (List Message)} {inbox : List Envelope}
    (h : Interleaves streams inbox) (hstreams : ∀ s ∈ streams, Delivers s) :
    ∃ front, (Watermarks.new streams.length).requests inbox = front ++ [.close] ∧
      .close ∉ front ∧ Request.InTime front ∧ Carries streams (Request.batches front) := by
  obtain ⟨front, hrequests, hfront⟩ := (Watermarks.expects_new h hstreams).requests
  have hinTime := inTime_requests streams.length (h.pairwise hstreams)
  rw [hrequests] at hinTime
  refine ⟨front, hrequests, hfront.unclosed, (List.pairwise_append.1 hinTime).1, fun port => ?_⟩
  rw [hfront.batches, fromPort_batches, h port]

end SeriesPipeline
