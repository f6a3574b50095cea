import SeriesPipeline.Proofs.Stage.Course

/-!
# Ports of stages

What an envelope does to the marks and the counters of a stage, whatever its operator. While a stage
is on its way, a port is open as long as no close has been taken from it, and some port is.
-/

namespace SeriesPipeline

/-- The marks after an envelope, and the watermark if it has grown. -/
def Watermarks.heed (w : Watermarks) (e : Envelope) : Watermarks × Option Instant :=
  if w.isOpen e.port then
    match e.message with
    | .batch _ => (w, none)
    | .barrier t => w.observe e.port t
    | .close => w.close e.port
  else (w, none)

/-- The barriers among some messages. -/
def barriersOf (messages : List Message) : List Instant := messages.filterMap Message.barrier?

theorem barriersOf_append (l m : List Message) :
    barriersOf (l ++ m) = barriersOf l ++ barriersOf m :=
  List.filterMap_append

theorem barriersOf_map_batch (l : List Batch) : barriersOf (l.map .batch) = [] := by
  rw [barriersOf, List.filterMap_map]
  exact List.filterMap_eq_nil_iff.2 fun _ _ => rfl

namespace Watermarks

variable {w : Watermarks} {e : Envelope}

theorem heed_of_not_isOpen (h : w.isOpen e.port = false) : w.heed e = (w, none) := by
  rw [heed, h]
  rfl

theorem lt_length_of_isOpen {port : Nat} (h : w.isOpen port = true) : port < w.ports.length := by
  obtain ⟨p, hp, -⟩ := (Option.any_eq_true _ _).1 h
  exact (List.getElem?_eq_some_iff.1 hp).1

theorem length_ports_heed (w : Watermarks) (e : Envelope) :
    (w.heed e).1.ports.length = w.ports.length := by
  rw [heed]
  split
  · split
    · rfl
    · exact w.length_ports_observe ..
    · exact w.length_ports_close ..
  · rfl

theorem isOpen_advance (w : Watermarks) (port : Nat) :
    w.advance.1.isOpen port = w.isOpen port := by
  rw [isOpen, ports_advance, isOpen]

/-- A port is open until a close has been taken from it. -/
theorem isOpen_heed (w : Watermarks) (e : Envelope) (port : Nat) :
    (w.heed e).1.isOpen port = true ↔ w.isOpen port = true ∧ e ≠ ⟨port, .close⟩ := by
  obtain ⟨number, message⟩ := e
  rw [heed]
  by_cases hopen : w.isOpen number = true
  · rw [if_pos hopen]
    cases message with
    | batch b => exact ⟨fun h => ⟨h, by rintro ⟨⟩⟩, And.left⟩
    | barrier t =>
      show (w.observe number t).1.isOpen port = true ↔ _
      rw [observe, isOpen_advance, isOpen, isOpen, List.getElem?_modify]
      constructor
      · intro h
        refine ⟨?_, by rintro ⟨⟩⟩
        rcases hp : w.ports[port]? with _ | p
        · rw [hp] at h
          cases h
        · rw [hp] at h
          split at h <;> exact h
      · rintro ⟨h, -⟩
        rcases hp : w.ports[port]? with _ | p
        · rw [hp] at h
          cases h
        · rw [hp] at h
          split <;> exact h
    | close =>
      show (w.close number).1.isOpen port = true ↔ _
      rw [close, isOpen_advance, isOpen, isOpen, List.getElem?_modify]
      by_cases hport : number = port
      · subst hport
        rcases w.ports[number]? with _ | p
        · exact iff_of_false Bool.false_ne_true fun h => Bool.false_ne_true h.1
        · exact iff_of_false (by simp) fun h => h.2 rfl
      · simp only [if_neg hport, Option.map_eq_map, Option.map_id']
        exact ⟨fun h => ⟨h, fun heq => hport (congrArg Envelope.port heq)⟩, And.left⟩
  · rw [if_neg hopen]
    refine ⟨fun h => ⟨h, fun heq => hopen ?_⟩, And.left⟩
    cases heq
    exact h

theorem exists_isOpen_of_not_allClosed (h : w.allClosed = false) :
    ∃ port, w.isOpen port = true := by
  obtain ⟨p, hp, hopen⟩ := List.all_eq_false.1 h
  obtain ⟨port, hport⟩ := List.mem_iff_getElem?.1 hp
  exact ⟨port, by rw [isOpen, hport]; simpa using hopen⟩

theorem allClosed_of_isOpen {port : Nat} (h : w.isOpen port = true) : w.allClosed = false := by
  obtain ⟨p, hp, hopen⟩ := (Option.any_eq_true _ _).1 h
  exact List.all_eq_false.2 ⟨p, List.mem_of_getElem? hp, by simpa using hopen⟩

/-- An envelope leaves the watermark alone, or marks move on and it is looked at again. -/
theorem heed_eq (w : Watermarks) (e : Envelope) :
    w.heed e = (w, none) ∨ ∃ w' : Watermarks, w'.emitted = w.emitted ∧ w.heed e = w'.advance := by
  rw [heed]
  split
  · split
    · exact .inl rfl
    · rename_i t _
      exact .inr ⟨{ w with ports := w.ports.modify e.port (Port.observe · t) }, rfl, rfl⟩
    · exact .inr ⟨{ w with ports := w.ports.modify e.port ({ · with isOpen := false }) }, rfl, rfl⟩
  · exact .inl rfl

theorem emitted_heed_of_none (h : (w.heed e).2 = none) : (w.heed e).1.emitted = w.emitted := by
  obtain heq | ⟨w', hsame, heq⟩ := w.heed_eq e
  · rw [heq]
  · rw [heq] at h ⊢
    exact (emitted_advance_of_none h).trans hsame

/-- A new watermark is beyond the last one, and is the last one from then on. -/
theorem of_heed_eq_some {t : Instant} (h : (w.heed e).2 = some t) :
    (w.heed e).1.emitted = some t ∧ ∀ s ∈ w.emitted, s < t := by
  obtain heq | ⟨w', hsame, heq⟩ := w.heed_eq e
  · rw [heq] at h
    cases h
  · rw [heq] at h ⊢
    exact hsame ▸ of_advance_eq_some h

end Watermarks

namespace Stage

variable {now : Instant} {s s' : Stage} {e : Envelope}

/-! ## One envelope -/

/-- What taking an envelope comes to, whatever the operator makes of it. -/
structure Heeds (s : Stage) (e : Envelope) (s' : Stage) (reaction : Reaction)
    (progress : Progress) : Prop where
  marks : s'.marks = (s.marks.heed e).1
  barriers : barriersOf reaction.sent = (s.marks.heed e).2.toList
  /-- The operator's answer to a watermark goes right before its barrier. -/
  flush : ∀ t ∈ (s.marks.heed e).2,
    (s.operator.onWatermark t).2.batches.map .batch ++ [.barrier t] <+: reaction.sent
  batchesIn : s'.batchesIn =
    s.batchesIn + if s.marks.isOpen e.port then e.message.batch?.toList.length else 0
  batchesOut : s'.batchesOut = s.batchesOut + (batchesOf reaction.sent).length
  /-- A stage that goes on knows the port, and does not go on without an open port. -/
  running : progress = .running →
    e.port < s.marks.ports.length ∧ (s.marks.allClosed = false → s'.marks.allClosed = false)

theorem barriers_finish (s : Stage) : barriersOf s.finish.2.sent = [] :=
  barriersOf_map_batch _

theorem batchesOut_emit (s : Stage) (op : Operator) (out : Emitted) :
    (s.emit op out).1.batchesOut = s.batchesOut + (batchesOf (s.emit op out).2.sent).length := by
  rw [emit]
  dsimp only
  rw [batchesOf_map_batch]

theorem barriers_advance (s : Stage) (mark : Option Instant) :
    barriersOf (s.advance mark).2.sent = mark.toList := by
  cases mark with
  | none => rfl
  | some t =>
    refine (barriersOf_append ..).trans ?_
    rw [barriersOf_map_batch]
    rfl

theorem flush_advance (s : Stage) (mark : Option Instant) :
    ∀ t ∈ mark, (s.advance mark).2.sent =
      (s.operator.onWatermark t).2.batches.map .batch ++ [.barrier t] := by
  rintro t ⟨⟩
  rfl

theorem batchesIn_advance (s : Stage) (mark : Option Instant) :
    (s.advance mark).1.batchesIn = s.batchesIn := by
  cases mark <;> rfl

theorem batchesOut_advance (s : Stage) (mark : Option Instant) :
    (s.advance mark).1.batchesOut = s.batchesOut + (batchesOf (s.advance mark).2.sent).length := by
  cases mark with
  | none => rfl
  | some t =>
    show _ = _ + (batchesOf (_ ++ [.barrier t])).length
    rw [batchesOf_append, List.length_append, ← Nat.add_assoc]
    exact batchesOut_emit ..

theorem heeds_takeBatch {b : Batch} (hopen : s.marks.isOpen e.port = true)
    (hmessage : e.message = .batch b) :
    s.Heeds e (s.takeBatch now e.port b).1 (s.takeBatch now e.port b).2.1
      (s.takeBatch now e.port b).2.2 := by
  have hheed : s.marks.heed e = (s.marks, none) := by
    rw [Watermarks.heed, if_pos hopen, hmessage]
  have hin : (if s.marks.isOpen e.port then e.message.batch?.toList.length else 0) = 1 := by
    rw [if_pos hopen, hmessage]
    rfl
  have hlt := Watermarks.lt_length_of_isOpen hopen
  rw [takeBatch]
  rcases s.operator.onBatch now e.port b with ⟨op, fault | out⟩
  · constructor
    · rw [hheed]
    · rw [hheed]
      rfl
    · rw [hheed]
      rintro t ⟨⟩
    · rw [hin]
    · rfl
    · rintro ⟨⟩
  · constructor
    · rw [hheed]
      rfl
    · rw [hheed]
      exact barriersOf_map_batch out.batches
    · rw [hheed]
      rintro t ⟨⟩
    · rw [hin]
      rfl
    · exact batchesOut_emit ..
    · exact fun _ => ⟨hlt, fun hsome => hsome⟩

theorem heeds_takeBarrier {t : Instant} (hopen : s.marks.isOpen e.port = true)
    (hmessage : e.message = .barrier t) :
    s.Heeds e (s.takeBarrier e.port t).1 (s.takeBarrier e.port t).2.1
      (s.takeBarrier e.port t).2.2 := by
  have hheed : s.marks.heed e = s.marks.observe e.port t := by
    rw [Watermarks.heed, if_pos hopen, hmessage]
  have hin : (if s.marks.isOpen e.port then e.message.batch?.toList.length else 0) = 0 := by
    rw [if_pos hopen, hmessage]
    rfl
  rw [takeBarrier]
  constructor
  · rw [hheed]
    exact marks_advance ..
  · rw [hheed]
    exact barriers_advance ..
  · rw [hheed]
    exact fun t' ht' => ⟨[], (List.append_nil _).trans
      (flush_advance { s with marks := (s.marks.observe e.port t).1 } _ t' ht').symm⟩
  · rw [hin]
    exact batchesIn_advance ..
  · exact batchesOut_advance ..
  · refine fun _ => ⟨Watermarks.lt_length_of_isOpen hopen, fun _ => ?_⟩
    have hstill : (s.marks.heed e).1.isOpen e.port = true :=
      (Watermarks.isOpen_heed ..).2 ⟨hopen, fun h => by rw [h] at hmessage; cases hmessage⟩
    rw [hheed] at hstill
    rw [marks_advance]
    exact Watermarks.allClosed_of_isOpen hstill

theorem heeds_takeClose (hopen : s.marks.isOpen e.port = true) (hmessage : e.message = .close) :
    s.Heeds e (s.takeClose e.port).1 (s.takeClose e.port).2.1 (s.takeClose e.port).2.2 := by
  have hheed : s.marks.heed e = s.marks.close e.port := by
    rw [Watermarks.heed, if_pos hopen, hmessage]
  have hin : (if s.marks.isOpen e.port then e.message.batch?.toList.length else 0) = 0 := by
    rw [if_pos hopen, hmessage]
    rfl
  have hflush := flush_advance { s with marks := (s.marks.close e.port).1 }
    (s.marks.close e.port).2
  have hbarriers := barriers_advance { s with marks := (s.marks.close e.port).1 }
    (s.marks.close e.port).2
  have hout := batchesOut_advance { s with marks := (s.marks.close e.port).1 }
    (s.marks.close e.port).2
  rw [takeClose]
  dsimp only
  split
  · -- the last words of the operator come after the barrier
    constructor
    · rw [hheed]
      exact marks_advance ..
    · rw [hheed]
      exact (barriersOf_append ..).trans
        (by rw [hbarriers, barriers_finish, List.append_nil])
    · rw [hheed]
      intro t ht
      exact hflush t ht ▸ List.prefix_append _ _
    · rw [hin]
      exact batchesIn_advance ..
    · refine (batchesOut_emit ..).trans ?_
      rw [hout, Nat.add_assoc]
      exact congrArg (_ + ·) ((congrArg List.length (batchesOf_append ..)).trans
        List.length_append).symm
    · rintro ⟨⟩
  · rename_i hsome
    constructor
    · rw [hheed]
      exact marks_advance ..
    · rw [hheed]
      exact hbarriers
    · rw [hheed]
      exact fun t ht => hflush t ht ▸ List.prefix_refl _
    · rw [hin]
      exact batchesIn_advance ..
    · exact hout
    · exact fun _ => ⟨Watermarks.lt_length_of_isOpen hopen, fun _ => Bool.not_eq_true _ ▸ hsome⟩

theorem receive_of_not_isOpen (hport : e.port < s.marks.ports.length)
    (hclosed : s.marks.isOpen e.port = false) : s.receive now e = (s, .none, .running) := by
  rw [Watermarks.isOpen, List.getElem?_eq_getElem hport] at hclosed
  rw [receive, List.getElem?_eq_getElem hport]
  exact if_neg (Bool.eq_false_iff.1 hclosed)

theorem heeds_receive (now : Instant) (s : Stage) (e : Envelope) :
    s.Heeds e (s.receive now e).1 (s.receive now e).2.1 (s.receive now e).2.2 := by
  by_cases hopen : s.marks.isOpen e.port = true
  · obtain ⟨p, hp, hpopen⟩ := (Option.any_eq_true _ _).1 hopen
    have hreceive : s.receive now e = match e.message with
        | .batch b => s.takeBatch now e.port b
        | .barrier t => s.takeBarrier e.port t
        | .close => s.takeClose e.port := by
      rw [receive, hp]
      exact if_pos hpopen
    rw [hreceive]
    cases hmessage : e.message with
    | batch b => exact heeds_takeBatch hopen hmessage
    | barrier t => exact heeds_takeBarrier hopen hmessage
    | close => exact heeds_takeClose hopen hmessage
  · rw [Bool.not_eq_true] at hopen
    have hheed := Watermarks.heed_of_not_isOpen hopen
    -- whether the port is unknown or closed, nothing is sent and nothing changes
    have hnothing (progress : Progress)
        (hrunning : progress = .running → e.port < s.marks.ports.length) :
        s.Heeds e s .none progress :=
      ⟨by rw [hheed], by rw [hheed]; rfl, by rw [hheed]; rintro t ⟨⟩, by rw [hopen]; rfl, rfl,
        fun h => ⟨hrunning h, fun hsome => hsome⟩⟩
    by_cases hport : e.port < s.marks.ports.length
    · rw [receive_of_not_isOpen hport hopen]
      exact hnothing _ fun _ => hport
    · have hnone : s.receive now e = (s, .none, .failed (.unknownPort s.id e.port)) := by
        rw [receive, List.getElem?_eq_none (Nat.le_of_not_lt hport)]
      rw [hnone]
      exact hnothing _ (by rintro ⟨⟩)

/-! ## On the way -/

/-- A stage that has taken some envelopes and goes on has all of its ports, of which those are open
that no close was taken from, and one is. -/
structure OnWay (ports : Nat) (taken : List Envelope) (s : Stage) : Prop where
  length : s.marks.ports.length = ports
  known : ∀ e ∈ taken, e.port < ports
  isOpen : ∀ port, s.marks.isOpen port = true ↔ port < ports ∧ ⟨port, .close⟩ ∉ taken
  remains : 0 < ports → s.marks.allClosed = false

theorem onWay_new (id : String) (op : Operator) (ports : Nat) : (new id op ports).OnWay ports [] :=
  have hisOpen (port : Nat) : (new id op ports).marks.isOpen port = true ↔ port < ports := by
    show ((List.replicate ports _)[port]?).any _ = true ↔ _
    rw [List.getElem?_replicate]
    split <;> simp [*]
  { length := List.length_replicate
    known := nofun
    isOpen := fun port => (hisOpen port).trans (and_iff_left List.not_mem_nil).symm
    remains := fun hports => Watermarks.allClosed_of_isOpen ((hisOpen 0).2 hports) }

theorem OnWay.receive {ports : Nat} {taken : List Envelope} (h : s.OnWay ports taken)
    (hrunning : (s.receive now e).2.2 = .running) :
    (s.receive now e).1.OnWay ports (taken ++ [e]) := by
  have hheeds := heeds_receive now s e
  obtain ⟨hknown, hremains⟩ := hheeds.running hrunning
  refine ⟨?_, ?_, fun port => ?_, fun hports => hremains (h.remains hports)⟩
  · rw [hheeds.marks, Watermarks.length_ports_heed, h.length]
  · rw [List.forall_mem_append]
    exact ⟨h.known, fun e' he' => List.mem_singleton.1 he' ▸ h.length ▸ hknown⟩
  · rw [hheeds.marks, Watermarks.isOpen_heed, h.isOpen, List.mem_append, List.mem_singleton,
      not_or, and_assoc, ne_comm]

theorem onWay_course {id : String} {op : Operator} {ports : Nat} {taken : List Envelope}
    (hrunning : ((new id op ports).course now taken).progress = .running) :
    ((new id op ports).course now taken).stage.OnWay ports taken := by
  induction taken using List.reverseRecOn with
  | nil => exact onWay_new id op ports
  | append_singleton taken e ih =>
    rw [course_concat] at hrunning ⊢
    by_cases hbefore : ((new id op ports).course now taken).progress = .running
    · rw [Course.take_of_running hbefore] at hrunning ⊢
      exact (ih hbefore).receive hrunning
    · rw [Course.take_of_ended hbefore] at hrunning
      exact absurd hrunning hbefore

/-- A stage with ports does not go on once it has taken a close from each of them. -/
theorem not_running_of_closes {id : String} {op : Operator} {ports : Nat} {taken : List Envelope}
    (hports : 0 < ports) (hcloses : ∀ port < ports, ⟨port, .close⟩ ∈ taken) :
    ((new id op ports).course now taken).progress ≠ .running := by
  intro hrunning
  have honWay := onWay_course hrunning
  obtain ⟨port, hopen⟩ := Watermarks.exists_isOpen_of_not_allClosed (honWay.remains hports)
  obtain ⟨hlt, hnot⟩ := (honWay.isOpen port).1 hopen
  exact hnot (hcloses port hlt)

/-! ## Ids -/

theorem id_advance (s : Stage) (mark : Option Instant) : (s.advance mark).1.id = s.id := by
  cases mark <;> rfl

/-- A stage keeps its id. -/
theorem id_receive (now : Instant) (s : Stage) (e : Envelope) : (s.receive now e).1.id = s.id := by
  rw [receive]
  split
  · rfl
  · split
    · split
      · rw [takeBatch]
        split <;> rfl
      · exact id_advance _ _
      · rw [takeClose]
        dsimp only
        split
        · exact id_advance _ _
        · exact id_advance _ _
    · rfl

theorem id_course (now : Instant) (s : Stage) (taken : List Envelope) :
    (s.course now taken).stage.id = s.id := by
  induction taken using List.reverseRecOn with
  | nil => rfl
  | append_singleton taken e ih =>
    rw [course_concat]
    by_cases hrunning : (s.course now taken).progress = .running
    · rw [Course.take_of_running hrunning]
      exact (id_receive now _ e).trans ih
    · rw [Course.take_of_ended hrunning]
      exact ih

end Stage

end SeriesPipeline
