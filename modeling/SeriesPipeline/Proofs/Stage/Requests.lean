import Mathlib.Tactic.Set
import SeriesPipeline.Proofs.Operator.Requests
import SeriesPipeline.Proofs.Stage.Watermarks
import SeriesPipeline.Stage.Basic

/-!
# Requests of stages

A stage makes requests of its operator: it hands over the batches of open ports, and a watermark
whenever it grows. For an operator that never fails, the stage comes down to these requests.
-/

namespace SeriesPipeline

/-- The requests that an inbox comes down to. -/
def Watermarks.requests (w : Watermarks) : List Envelope → List Request
  | [] => [.close]
  | e :: rest =>
    if w.isOpen e.port then
      match e.message with
      | .batch b => .batch e.port b :: w.requests rest
      | .barrier t =>
        let (w, mark) := w.observe e.port t
        (mark.map Request.watermark).toList ++ w.requests rest
      | .close =>
        let (w, mark) := w.close e.port
        (mark.map Request.watermark).toList ++
          if w.allClosed then [.close] else w.requests rest
    else w.requests rest

/-- The batches among some messages. -/
def batchesOf (messages : List Message) : List Batch := messages.filterMap Message.batch?

/-- An operator that never fails and gives out nothing but batches. -/
structure Performs {σ : Type} (now : Instant) (embed : σ → Operator)
    (take : σ → Request → σ × List Batch) : Prop where
  batch : ∀ op port b, (embed op).onBatch now port b =
    (embed (take op (.batch port b)).1, .ok (.ofBatches (take op (.batch port b)).2))
  watermark : ∀ op t, (embed op).onWatermark t =
    (embed (take op (.watermark t)).1, .ofBatches (take op (.watermark t)).2)
  close : ∀ op, (embed op).onClose =
    (embed (take op .close).1, .ofBatches (take op .close).2)

theorem batchesOf_append (l m : List Message) :
    batchesOf (l ++ m) = batchesOf l ++ batchesOf m :=
  List.filterMap_append

theorem batchesOf_map_batch (l : List Batch) : batchesOf (l.map .batch) = l := by
  rw [batchesOf, List.filterMap_map]
  exact List.filterMap_some

namespace Stage

variable {σ : Type} {now : Instant} {embed : σ → Operator} {take : σ → Request → σ × List Batch}

/-- `s` and what was sent are what comes of some requests to `op`. -/
structure Follows (embed : σ → Operator) (take : σ → Request → σ × List Batch) (op : σ)
    (requests : List Request) (s : Stage) (reaction : Reaction) : Prop where
  operator : s.operator = embed (Request.run take op requests).1
  sent : batchesOf reaction.sent = (Request.run take op requests).2

theorem Follows.append {op : σ} {requests later : List Request} {s s' : Stage}
    {reaction reaction' : Reaction} (h : Follows embed take op requests s reaction)
    (h' : Follows embed take (Request.run take op requests).1 later s' reaction') :
    Follows embed take op (requests ++ later) s' (reaction ++ reaction') := by
  constructor
  · rw [h'.operator, Request.run_append]
  · show batchesOf (reaction.sent ++ reaction'.sent) = _
    rw [batchesOf_append, h.sent, h'.sent, Request.run_append]

theorem follows_emit {op op' : σ} {request : Request} {out : List Batch}
    (h : take op request = (op', out)) (s : Stage) :
    Follows embed take op [request] (s.emit (embed op') (.ofBatches out)).1
      (s.emit (embed op') (.ofBatches out)).2 := by
  have hrun : Request.run take op [request] = (op', out) := by
    rw [Request.run_cons, h, Request.run_nil, List.append_nil]
  constructor
  · rw [hrun]
    rfl
  · rw [hrun]
    exact batchesOf_map_batch out

theorem follows_advance (h : Performs now embed take) {s : Stage} {op : σ}
    (hop : s.operator = embed op) (mark : Option Instant) :
    Follows embed take op (mark.map Request.watermark).toList (s.advance mark).1
      (s.advance mark).2 := by
  cases mark with
  | none => exact ⟨hop, rfl⟩
  | some t =>
    have hemit : Follows embed take op [.watermark t] _ _ := follows_emit rfl s
    rw [advance, hop, h.watermark]
    refine ⟨hemit.operator, Eq.trans ?_ hemit.sent⟩
    show batchesOf (_ ++ [.barrier t]) = batchesOf _
    rw [batchesOf_append]
    exact List.append_nil _

theorem marks_advance (s : Stage) (mark : Option Instant) : (s.advance mark).1.marks = s.marks := by
  cases mark <;> rfl

theorem follows_finish (h : Performs now embed take) {s : Stage} {op : σ}
    (hop : s.operator = embed op) :
    Follows embed take op [.close] s.finish.1 s.finish.2 := by
  rw [finish, hop, h.close]
  exact follows_emit rfl s

/-- A stage lets its operator take the requests of its inbox. -/
theorem process_performs (h : Performs now embed take) {s : Stage} {op : σ}
    (hop : s.operator = embed op) {inbox : List Envelope}
    (hports : ∀ e ∈ inbox, e.port < s.marks.ports.length) :
    Follows embed take op (s.marks.requests inbox) (s.process now inbox).1
      (s.process now inbox).2.1 ∧ (s.process now inbox).2.2 = none := by
  induction inbox generalizing s op with
  | nil => exact ⟨follows_finish h hop, rfl⟩
  | cons e rest ih =>
    obtain ⟨port, hport⟩ : ∃ port, s.marks.ports[e.port]? = some port :=
      ⟨_, List.getElem?_eq_getElem (hports e List.mem_cons_self)⟩
    have hrest : ∀ e' ∈ rest, e'.port < s.marks.ports.length :=
      fun e' he' => hports e' (List.mem_cons_of_mem _ he')
    have hisOpen : s.marks.isOpen e.port = port.isOpen := by
      rw [Watermarks.isOpen, hport]
      rfl
    rw [Watermarks.requests, hisOpen, process, receive, hport]
    dsimp only
    cases port.isOpen with
    | false =>
      -- a closed port takes no more, and its messages make no requests
      obtain ⟨hfollows, hnone⟩ := ih hop hrest
      exact ⟨hfollows, hnone⟩
    | true =>
      rw [if_pos rfl, if_pos rfl]
      cases e.message with
      | batch b =>
        dsimp only [takeBatch]
        rw [hop, h.batch]
        have hemit : Follows embed take op [.batch e.port b] _ _ :=
          follows_emit rfl { s with batchesIn := s.batchesIn + 1 }
        obtain ⟨hfollows, hnone⟩ := ih hemit.operator hrest
        exact ⟨hemit.append hfollows, hnone⟩
      | barrier t =>
        dsimp only [takeBarrier]
        set marks := (s.marks.observe e.port t).1
        set mark := (s.marks.observe e.port t).2
        have hadvance := follows_advance h (s := { s with marks }) hop mark
        have hsame := marks_advance { s with marks } mark
        have hlength : marks.ports.length = s.marks.ports.length :=
          s.marks.length_ports_observe e.port t
        obtain ⟨hfollows, hnone⟩ := ih hadvance.operator
          (by rw [hsame]; exact hlength ▸ hrest)
        rw [hsame] at hfollows
        exact ⟨hadvance.append hfollows, hnone⟩
      | close =>
        dsimp only [takeClose]
        set marks := (s.marks.close e.port).1
        set mark := (s.marks.close e.port).2
        have hadvance := follows_advance h (s := { s with marks }) hop mark
        have hsame := marks_advance { s with marks } mark
        have hlength : marks.ports.length = s.marks.ports.length :=
          s.marks.length_ports_close e.port
        rw [hsame]
        -- the last close ends the stage, whatever is left of the inbox
        by_cases hall : marks.allClosed = true
        · rw [if_pos hall, if_pos hall]
          exact ⟨hadvance.append (follows_finish h hadvance.operator), rfl⟩
        · rw [if_neg hall, if_neg hall]
          obtain ⟨hfollows, hnone⟩ := ih hadvance.operator
            (by rw [hsame]; exact hlength ▸ hrest)
          rw [hsame] at hfollows
          exact ⟨hadvance.append hfollows, hnone⟩

theorem run_performs (h : Performs now embed take) (id : String) (op : σ) {ports : Nat}
    {inbox : List Envelope} (hports : ∀ e ∈ inbox, e.port < ports) :
    let result := (new id (embed op) ports).run now inbox
    Follows embed take op ((Watermarks.new ports).requests inbox) result.1 result.2.1 ∧
      result.2.2 = none := by
  have hlength : (Watermarks.new ports).ports.length = ports := List.length_replicate
  obtain ⟨hfollows, hnone⟩ := process_performs h (s := new id (embed op) ports) rfl
    (fun e he => lt_of_lt_of_eq (hports e he) hlength.symm)
  refine ⟨⟨hfollows.operator, Eq.trans ?_ hfollows.sent⟩, hnone⟩
  show batchesOf (_ ++ [.close]) = batchesOf _
  rw [batchesOf_append]
  exact List.append_nil _

end Stage

end SeriesPipeline
