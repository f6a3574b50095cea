import SeriesPipeline.Proofs.Operator.Guarded
import SeriesPipeline.Proofs.Stage.Ports

/-!
# Guarded stages

A stage in guarded form takes an envelope only if it has the port, and if its operator answers in
guarded form. A stage stays ready for that: what its operator has buffered keeps its shape, and all
batches that it sends are well-formed.
-/

namespace SeriesPipeline

namespace Watermarks

def isOpen? (w : Watermarks) (port : Nat) : Option Bool := w.ports[port]?.map (·.isOpen)

/-- `observe`, with a mark for the port. -/
def markPort? (w : Watermarks) (port : Nat) (t : Instant) :
    Option (Watermarks × Option Instant) := do
  let p ← w.ports[port]?
  return { w with ports := w.ports.set port (Port.observe p t) }.advance

def closePort? (w : Watermarks) (port : Nat) : Option (Watermarks × Option Instant) := do
  let p ← w.ports[port]?
  return { w with ports := w.ports.set port { p with isOpen := false } }.advance

variable {w : Watermarks} {port : Nat}

theorem isOpen?_eq (h : port < w.ports.length) : w.isOpen? port = some (w.isOpen port) := by
  rw [isOpen?, isOpen, List.getElem?_eq_getElem h]
  rfl

theorem markPort?_eq (h : port < w.ports.length) (t : Instant) :
    w.markPort? port t = some (w.observe port t) := by
  rw [markPort?, List.getElem?_eq_getElem h, observe, List.modify_eq_set_get _ h]
  rfl

theorem closePort?_eq (h : port < w.ports.length) : w.closePort? port = some (w.close port) := by
  rw [closePort?, List.getElem?_eq_getElem h, close, List.modify_eq_set_get _ h]
  rfl

end Watermarks

namespace Stage

/-- `advance` in guarded form. -/
def advance? (s : Stage) : Option Instant → Option (Stage × Reaction)
  | none => some (s, .none)
  | some mark => do
    let (operator, out) ← s.operator.onWatermark? mark
    let (s, reaction) := s.emit operator out
    return (s, reaction ++ ⟨[.barrier mark], [], []⟩)

/-- `finish` in guarded form. -/
def finish? (s : Stage) : Option (Stage × Reaction) := do
  let (operator, out) ← s.operator.onClose?
  return s.emit operator out

def takeBatch? (s : Stage) (now : Instant) (port : Nat) (b : Batch) :
    Option (Stage × Reaction × Progress) := do
  let s := { s with batchesIn := s.batchesIn + 1 }
  match ← s.operator.onBatch? now port b with
  | (operator, .ok out) =>
    let (s, reaction) := s.emit operator out
    return (s, reaction, .running)
  | (operator, .error cause) => return ({ s with operator }, .none, .failed (.stage s.id cause))

def takeBarrier? (s : Stage) (port : Nat) (t : Instant) :
    Option (Stage × Reaction × Progress) := do
  let (marks, mark) ← s.marks.markPort? port t
  let (s, reaction) ← { s with marks }.advance? mark
  return (s, reaction, .running)

def takeClose? (s : Stage) (port : Nat) : Option (Stage × Reaction × Progress) := do
  let (marks, mark) ← s.marks.closePort? port
  let (s, reaction) ← { s with marks }.advance? mark
  if s.marks.allClosed then
    let (s, last) ← s.finish?
    return (s, reaction ++ last, .finished)
  else return (s, reaction, .running)

/-- `receive` in guarded form: the stage has the port, and every step has a result. -/
def receive? (s : Stage) (now : Instant) (e : Envelope) : Option (Stage × Reaction × Progress) := do
  if ← s.marks.isOpen? e.port then
    match e.message with
    | .batch b => s.takeBatch? now e.port b
    | .barrier t => s.takeBarrier? e.port t
    | .close => s.takeClose? e.port
  else return (s, .none, .running)

end Stage

/-! ## Ready stages -/

/-- What the operator has buffered is in shape, it has so many ports, and the batches that `P` holds
of suit it. -/
structure Operator.Ready (ports : Nat) (P : Batch → Prop) (op : Operator) : Prop where
  shaped : op.Shaped False False
  hasPorts : op.HasPorts ports
  suits : ∀ b, P b → op.Suits False False b

/-- The operator is ready, and so many ports are there. -/
structure Stage.Ready (ports : Nat) (P : Batch → Prop) (s : Stage) : Prop where
  operator : s.operator.Ready ports P
  length : s.marks.ports.length = ports

variable {ports : Nat} {P : Batch → Prop}

namespace Operator

variable {op : Operator} {distinct enclosed : Prop} {b : Batch}

theorem Promises.wellFormed (h : op.Promises distinct enclosed b) : b.WellFormed := by
  cases op <;> exact Batch.Fits.wellFormed h

theorem Ready.answer (h : op.Ready ports P) (now : Instant) {r : Request}
    (hr : ∀ e ∈ r.batch?, P e.2) :
    (op.answer now r).1.Ready ports P ∧
      ∀ out, (op.answer now r).2 = .ok out → ∀ b ∈ out.batches, b.WellFormed := by
  obtain ⟨hshaped, hout⟩ := h.shaped.answer now fun e he => h.suits e.2 (hr e he)
  refine ⟨⟨hshaped, ?_, ?_⟩, fun out hanswer b hb => (hout out hanswer b hb).wellFormed⟩
  · rw [hasPorts_answer]
    exact h.hasPorts
  · rw [suits_answer]
    exact h.suits

end Operator

namespace Stage

variable {s : Stage} {e : Envelope}

theorem wellFormed_nil : ∀ b ∈ batchesOf [], b.WellFormed := fun _ hb => absurd hb List.not_mem_nil

theorem wellFormed_map_batch {batches : List Batch} (h : ∀ b ∈ batches, b.WellFormed) :
    ∀ b ∈ batchesOf (batches.map .batch), b.WellFormed := by
  rwa [batchesOf_map_batch]

theorem wellFormed_append {r r' : Reaction} (h : ∀ b ∈ batchesOf r.sent, b.WellFormed)
    (h' : ∀ b ∈ batchesOf r'.sent, b.WellFormed) :
    ∀ b ∈ batchesOf (r ++ r').sent, b.WellFormed := by
  show ∀ b ∈ batchesOf (r.sent ++ r'.sent), b.WellFormed
  rw [batchesOf_append]
  exact List.forall_mem_append.2 ⟨h, h'⟩

theorem ready_advance (h : s.operator.Ready ports P) (mark : Option Instant) :
    (s.advance mark).1.operator.Ready ports P ∧
      ∀ b ∈ batchesOf (s.advance mark).2.sent, b.WellFormed := by
  cases mark with
  | none => exact ⟨h, wellFormed_nil⟩
  | some t =>
    obtain ⟨hready, hout⟩ := h.answer .epoch (r := .watermark t) nofun
    exact ⟨hready, wellFormed_append (wellFormed_map_batch (hout _ rfl)) wellFormed_nil⟩

theorem ready_finish (h : s.operator.Ready ports P) :
    s.finish.1.operator.Ready ports P ∧ ∀ b ∈ batchesOf s.finish.2.sent, b.WellFormed := by
  obtain ⟨hready, hout⟩ := h.answer .epoch (r := .close) nofun
  exact ⟨hready, wellFormed_map_batch (hout _ rfl)⟩

theorem ready_takeBatch (h : s.operator.Ready ports P) (now : Instant) (port : Nat) {b : Batch}
    (hb : P b) : (s.takeBatch now port b).1.operator.Ready ports P ∧
      ∀ b' ∈ batchesOf (s.takeBatch now port b).2.1.sent, b'.WellFormed := by
  have hr : ∀ e ∈ (Request.batch port b).batch?, P e.2 := by
    rintro _ ⟨⟩
    exact hb
  obtain ⟨hready, hout⟩ := h.answer now hr
  rw [takeBatch]
  dsimp only
  split
  · rename_i operator out heq
    rw [Operator.answer, heq] at hready hout
    exact ⟨hready, wellFormed_map_batch (hout out rfl)⟩
  · rename_i operator cause heq
    rw [Operator.answer, heq] at hready
    exact ⟨hready, wellFormed_nil⟩

theorem ready_takeClose (h : s.operator.Ready ports P) (port : Nat) :
    (s.takeClose port).1.operator.Ready ports P ∧
      ∀ b ∈ batchesOf (s.takeClose port).2.1.sent, b.WellFormed := by
  obtain ⟨hready, hsent⟩ := ready_advance (s := { s with marks := (s.marks.close port).1 }) h
    (s.marks.close port).2
  rw [takeClose]
  dsimp only
  split
  · obtain ⟨hfinished, hlast⟩ := ready_finish hready
    exact ⟨hfinished, wellFormed_append hsent hlast⟩
  · exact ⟨hready, hsent⟩

/-- Whatever envelope a stage takes, it stays ready, and sends well-formed batches. -/
theorem Ready.receive (h : s.Ready ports P) (now : Instant) (he : ∀ b ∈ e.message.batch?, P b) :
    (s.receive now e).1.Ready ports P ∧
      ∀ b ∈ batchesOf (s.receive now e).2.1.sent, b.WellFormed := by
  have hlength : (s.receive now e).1.marks.ports.length = ports := by
    rw [(heeds_receive now s e).marks, Watermarks.length_ports_heed, h.length]
  -- ports are only marked and closed, so what is left is about the operator
  suffices hready : (s.receive now e).1.operator.Ready ports P ∧
      ∀ b ∈ batchesOf (s.receive now e).2.1.sent, b.WellFormed from
    ⟨⟨hready.1, hlength⟩, hready.2⟩
  rw [Stage.receive]
  split
  · exact ⟨h.operator, wellFormed_nil⟩
  · split
    · split
      · rename_i b hmessage
        exact ready_takeBatch h.operator now e.port (he b (hmessage ▸ rfl))
      · rename_i t _
        exact ready_advance (s := { s with marks := (s.marks.observe e.port t).1 }) h.operator _
      · exact ready_takeClose h.operator e.port
    · exact ⟨h.operator, wellFormed_nil⟩

/-- What one envelope keeps, all that a stage has taken does. -/
theorem Ready.course (h : s.Ready ports P) (now : Instant) {taken : List Envelope}
    (htaken : ∀ e ∈ taken, ∀ b ∈ e.message.batch?, P b) :
    (s.course now taken).stage.Ready ports P ∧
      ∀ b ∈ batchesOf (s.course now taken).reaction.sent, b.WellFormed := by
  induction taken using List.reverseRecOn with
  | nil => exact ⟨h, wellFormed_nil⟩
  | append_singleton taken e ih =>
    obtain ⟨hbefore, he⟩ := List.forall_mem_append.1 htaken
    obtain ⟨hready, hsent⟩ := ih hbefore
    rw [course_concat]
    by_cases hrunning : (s.course now taken).progress = .running
    · obtain ⟨hnext, hlater⟩ := hready.receive now (he e (List.mem_singleton_self e))
      rw [Course.take_of_running hrunning]
      exact ⟨hnext, wellFormed_append hsent hlater⟩
    · rw [Course.take_of_ended hrunning]
      exact ⟨hready, hsent⟩

/-! ## Answers in guarded form -/

theorem advance?_eq (h : s.operator.Ready ports P) (mark : Option Instant) :
    s.advance? mark = some (s.advance mark) := by
  cases mark with
  | none => rfl
  | some t =>
    rw [advance?, h.shaped.onWatermark?]
    rfl

theorem finish?_eq (s : Stage) : s.finish? = some s.finish := by
  rw [finish?, Operator.onClose?_eq]
  rfl

theorem takeBatch?_eq (h : s.operator.Ready ports P) (now : Instant) {port : Nat} {b : Batch}
    (hport : port < ports) (hb : P b) :
    s.takeBatch? now port b = some (s.takeBatch now port b) := by
  have hguarded := h.shaped.onBatch? h.hasPorts hport (h.suits b hb) now
  rw [takeBatch?, takeBatch]
  dsimp only
  rw [hguarded]
  rcases s.operator.onBatch now port b with ⟨operator, _ | _⟩
  · rfl
  · rfl

theorem takeBarrier?_eq (h : s.Ready ports P) {port : Nat} (hport : port < ports) (t : Instant) :
    s.takeBarrier? port t = some (s.takeBarrier port t) := by
  rw [takeBarrier?, Watermarks.markPort?_eq (hport.trans_eq h.length.symm)]
  dsimp only [Option.bind_eq_bind, Option.bind_some]
  rw [advance?_eq (s := { s with marks := (s.marks.observe port t).1 }) h.operator]
  rfl

theorem takeClose?_eq (h : s.Ready ports P) {port : Nat} (hport : port < ports) :
    s.takeClose? port = some (s.takeClose port) := by
  rw [takeClose?, Watermarks.closePort?_eq (hport.trans_eq h.length.symm)]
  dsimp only [Option.bind_eq_bind, Option.bind_some]
  rw [advance?_eq (s := { s with marks := (s.marks.close port).1 }) h.operator, takeClose]
  dsimp only [Option.bind_some]
  split
  · rw [finish?_eq]
    rfl
  · rfl

/-- A stage that is ready takes every envelope for one of its ports as it does in guarded form. -/
theorem Ready.receive? (h : s.Ready ports P) (now : Instant) (hport : e.port < ports)
    (he : ∀ b ∈ e.message.batch?, P b) : s.receive? now e = some (s.receive now e) := by
  have hlt : e.port < s.marks.ports.length := hport.trans_eq h.length.symm
  rw [Stage.receive?, Watermarks.isOpen?_eq hlt, Stage.receive, Watermarks.isOpen,
    List.getElem?_eq_getElem hlt]
  dsimp only [Option.bind_eq_bind, Option.bind_some, Option.any_some]
  split
  · cases hmessage : e.message with
    | batch b => exact takeBatch?_eq h.operator now hport (he b (hmessage ▸ rfl))
    | barrier t => exact takeBarrier?_eq h hport t
    | close => exact takeClose?_eq h hport
  · rfl

end Stage

end SeriesPipeline
