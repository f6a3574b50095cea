import Mathlib.Order.Monotone.Defs
import SeriesPipeline.Proofs.Stage.Requests

/-!
# Promises of ports

A barrier on a port promises that no batch of a window that has ended by then follows on that port.
While all ports keep their promises, the requests that an inbox comes down to do so too: no batch is
handed over after a watermark that has passed its window. The same goes for every relation of the
batches to the barriers before them that also holds of earlier barriers.
-/

namespace SeriesPipeline

/-- The messages of one port. -/
def messagesAt (port : Nat) (inbox : List Envelope) : List Message :=
  (inbox.filter fun e => e.port = port).map (·.message)

theorem Message.eq_barrier_of_mem {m : Message} {t : Instant} (h : t ∈ m.barrier?) :
    m = .barrier t := by
  cases m with
  | barrier t' => exact congrArg barrier (Option.some.inj h)
  | batch b => cases h
  | close => cases h

theorem Message.eq_batch_of_mem {m : Message} {b : Batch} (h : b ∈ m.batch?) : m = .batch b := by
  cases m with
  | batch b' => exact congrArg batch (Option.some.inj h)
  | barrier t => cases h
  | close => cases h

/-- No window of the batch has ended by the barrier. -/
def KeepsBarrier (earlier later : Message) : Prop :=
  ∀ t ∈ earlier.barrier?, ∀ b ∈ later.batch?, ∀ w ∈ b.alignmentWindow, t < w.stop

instance (earlier later : Message) : Decidable (KeepsBarrier earlier later) :=
  inferInstanceAs (Decidable
    (∀ t ∈ earlier.barrier?, ∀ b ∈ later.batch?, ∀ w ∈ b.alignmentWindow, t < w.stop))

/-- The window of the batch has not ended by `t`. -/
def Batch.After (b : Batch) (t : Instant) : Prop := ∀ w ∈ b.alignmentWindow, t < w.stop

theorem Batch.After.of_le {b : Batch} {s t : Instant} (h : b.After t) (hle : s ≤ t) : b.After s :=
  fun w hw => lt_of_le_of_lt hle (h w hw)

/-- A batch that comes after a barrier is in a relation to it. -/
def Message.Keeps (R : Instant → Batch → Prop) (earlier later : Message) : Prop :=
  ∀ t ∈ earlier.barrier?, ∀ b ∈ later.batch?, R t b

instance {R : Instant → Batch → Prop} [∀ t b, Decidable (R t b)] (earlier later : Message) :
    Decidable (Message.Keeps R earlier later) :=
  inferInstanceAs (Decidable (∀ t ∈ earlier.barrier?, ∀ b ∈ later.batch?, R t b))

/-- A batch that is handed over after a watermark is in a relation to it. -/
def Request.Keeps (R : Instant → Batch → Prop) (earlier later : Request) : Prop :=
  ∀ t ∈ earlier.watermark?, ∀ e ∈ later.batch?, R t e.2

theorem pairwise_append_close {R : Instant → Batch → Prop} {messages : List Message}
    (h : messages.Pairwise (Message.Keeps R)) :
    (messages ++ [Message.close]).Pairwise (Message.Keeps R) := by
  refine List.pairwise_append.2 ⟨h, List.pairwise_singleton _ _, fun m _ last hlast => ?_⟩
  rw [List.mem_singleton.1 hlast]
  exact fun _ _ _ hb => nomatch hb

theorem messagesAt_cons (port : Nat) (e : Envelope) (rest : List Envelope) :
    messagesAt port (e :: rest) =
      if e.port = port then e.message :: messagesAt port rest else messagesAt port rest := by
  rw [messagesAt, List.filter_cons]
  by_cases h : e.port = port
  · rw [if_pos (decide_eq_true h), if_pos h]
    rfl
  · rw [if_neg (by simpa using h), if_neg h]
    rfl

theorem messagesAt_append (port : Nat) (l m : List Envelope) :
    messagesAt port (l ++ m) = messagesAt port l ++ messagesAt port m := by
  rw [messagesAt, List.filter_append, List.map_append]
  rfl

theorem messagesAt_map (port port' : Nat) (messages : List Message) :
    messagesAt port (messages.map (⟨port', ·⟩)) = if port' = port then messages else [] := by
  rw [messagesAt, List.filter_map, List.map_map]
  by_cases h : port' = port
  · simp [Function.comp_def, h]
  · simp [Function.comp_def, h]

theorem mem_messagesAt {port : Nat} {m : Message} {inbox : List Envelope} :
    m ∈ messagesAt port inbox ↔ ⟨port, m⟩ ∈ inbox := by
  refine ⟨fun h => ?_, fun h => List.mem_map_of_mem (List.mem_filter.2 ⟨h, decide_eq_true rfl⟩)⟩
  obtain ⟨⟨port', m'⟩, he, rfl⟩ := List.mem_map.1 h
  obtain ⟨hmem, hport⟩ := List.mem_filter.1 he
  obtain rfl := of_decide_eq_true hport
  exact hmem

/-! ## Ports and what is left for them -/

/-- Every port agrees with the messages to come on it. -/
def Watermarks.EachPort (P : Port → List Message → Prop) (w : Watermarks) (inbox : List Envelope) :
    Prop :=
  ∀ (i : Nat) (port : Port), w.ports[i]? = some port → P port (messagesAt i inbox)

/-- An envelope changes only its own port. -/
theorem Watermarks.EachPort.step {P : Port → List Message → Prop} {w w' : Watermarks}
    {e : Envelope} {rest : List Envelope} {f : Port → Port} (h : w.EachPort P (e :: rest))
    (hports : w'.ports = w.ports.modify e.port f)
    (hport : ∀ port stream, P port (e.message :: stream) → P (f port) stream) :
    w'.EachPort P rest := by
  intro i port hi
  rw [hports, List.getElem?_modify] at hi
  obtain ⟨old, hold, rfl⟩ := Option.map_eq_some_iff.1 hi
  have hbefore := h i old hold
  rw [messagesAt_cons] at hbefore
  by_cases hsame : e.port = i
  · rw [if_pos hsame] at hbefore
    simp only [hsame, if_true]
    exact hport old _ hbefore
  · rw [if_neg hsame] at hbefore
    simp only [hsame, if_false]
    exact hbefore

/-- While the port is open, the messages to come keep its mark, as a barrier before them, and their
own barriers. -/
def Port.Keeps (R : Instant → Batch → Prop) (port : Port) (stream : List Message) : Prop :=
  port.isOpen = true →
    ((port.mark.map Message.barrier).toList ++ stream).Pairwise (Message.Keeps R)

variable {R : Instant → Batch → Prop}

theorem Port.Keeps.tail {port : Port} {m : Message} {stream : List Message}
    (h : port.Keeps R (m :: stream)) : port.Keeps R stream :=
  fun hopen => (h hopen).sublist ((List.sublist_cons_self m stream).append_left _)

theorem Port.Keeps.observe {port : Port} {t : Instant} {stream : List Message}
    (h : port.Keeps R (.barrier t :: stream)) :
    (Watermarks.Port.observe port t).Keeps R stream := by
  intro hopen
  have hkeeps := h hopen
  rw [Watermarks.Port.observe]
  cases hmark : port.mark with
  | none =>
    rw [hmark] at hkeeps
    exact hkeeps
  | some m =>
    rw [hmark] at hkeeps
    obtain ⟨hmark, hbarrier, hstream⟩ :=
      (List.pairwise_cons.1 hkeeps).imp_right List.pairwise_cons.1
    refine List.pairwise_cons.2 ⟨?_, hstream⟩
    rintro later hlater _ ⟨⟩ b hb
    -- the mark is one of the two barriers
    show R (max m t) b
    rcases max_choice m t with hmax | hmax
    · rw [hmax]
      exact hmark later (List.mem_cons_of_mem _ hlater) m rfl b hb
    · rw [hmax]
      exact hbarrier later hlater t rfl b hb

namespace Watermarks

/-- The messages to come on open ports keep the marks. -/
structure Awaits (R : Instant → Batch → Prop) (w : Watermarks) (inbox : List Envelope) : Prop where
  promised : w.Promised
  keeps : w.EachPort (Port.Keeps R) inbox

theorem Awaits.tail {w : Watermarks} {e : Envelope} {rest : List Envelope}
    (h : w.Awaits R (e :: rest)) : w.Awaits R rest :=
  ⟨h.promised, h.keeps.step (f := id) (List.modify_id ..).symm fun _ _ hkeeps => hkeeps.tail⟩

theorem Awaits.barrier {w : Watermarks} {port : Nat} {t : Instant} {rest : List Envelope}
    (h : w.Awaits R (⟨port, .barrier t⟩ :: rest)) : (w.observe port t).1.Awaits R rest :=
  ⟨h.promised.observe port t,
    h.keeps.step (f := (Port.observe · t)) (ports_advance _) fun _ _ hkeeps => hkeeps.observe⟩

theorem Awaits.close {w : Watermarks} {port : Nat} {rest : List Envelope}
    (h : w.Awaits R (⟨port, .close⟩ :: rest)) : (w.close port).1.Awaits R rest :=
  ⟨h.promised.close port,
    h.keeps.step (f := ({ · with isOpen := false })) (ports_advance _) fun _ _ _ => nofun⟩

theorem awaits_new (ports : Nat) {inbox : List Envelope}
    (h : ∀ port, (messagesAt port inbox).Pairwise (Message.Keeps R)) :
    (new ports).Awaits R inbox where
  promised := promised_new ports
  keeps i port hport _ := by
    rw [new, List.getElem?_replicate, Option.ite_none_right_eq_some] at hport
    rw [← Option.some.inj hport.2]
    exact h i

section Antitone

variable (hR : ∀ b, Antitone fun t => R t b)
include hR

/-- A batch on an open port is in the relation to the last watermark. -/
theorem Awaits.rel {w : Watermarks} {port : Nat} {b : Batch} {rest : List Envelope}
    (h : w.Awaits R (⟨port, .batch b⟩ :: rest)) (hopen : w.isOpen port = true) {t : Instant}
    (ht : w.emitted = some t) : R t b := by
  obtain ⟨p, hp, hpopen⟩ := (Option.any_eq_true _ _).1 hopen
  obtain ⟨m, hm, hle⟩ := h.promised t ht p (List.mem_of_getElem? hp) hpopen
  have hkeeps := h.keeps port p hp hpopen
  rw [messagesAt_cons, if_pos rfl, Option.mem_def.1 hm] at hkeeps
  have hbatch : Message.Keeps R (.barrier m) (.batch b) :=
    List.rel_of_pairwise_cons hkeeps List.mem_cons_self
  exact hR b hle (hbatch m rfl b rfl)

/-! ## Requests -/

/-- The watermark given out last, as a request. -/
def lastWatermark (w : Watermarks) : List Request := (w.emitted.map Request.watermark).toList

/-- What stands in the relation to a new watermark does so to the last one, which is less. -/
theorem keeps_advance (w : Watermarks) {later : List Request}
    (h : (w.advance.1.lastWatermark ++ later).Pairwise (Request.Keeps R)) :
    (w.lastWatermark ++ ((w.advance.2.map Request.watermark).toList ++ later)).Pairwise
      (Request.Keeps R) := by
  rw [lastWatermark] at *
  cases hmark : w.advance.2 with
  | none =>
    rw [emitted_advance_of_none hmark] at h
    exact h
  | some t =>
    obtain ⟨hemitted, hgrown⟩ := of_advance_eq_some hmark
    rw [hemitted] at h
    cases hlast : w.emitted with
    | none => exact h
    | some s =>
      -- the last watermark is the weaker demand on what comes later
      refine List.pairwise_cons.2 ⟨?_, h⟩
      rintro r hr _ ⟨⟩ e he
      rcases List.mem_cons.1 hr with rfl | hr
      · cases he
      · exact hR e.2 (le_of_lt (hgrown s hlast)) (List.rel_of_pairwise_cons h hr t rfl e he)

omit hR in
/-- One request more, which is no watermark. -/
theorem keeps_cons {w : Watermarks} {r : Request} {later : List Request}
    (h : (w.lastWatermark ++ later).Pairwise (Request.Keeps R)) (hr : r.watermark? = none)
    (hrel : ∀ e ∈ r.batch?, ∀ t ∈ w.emitted, R t e.2) :
    (w.lastWatermark ++ r :: later).Pairwise (Request.Keeps R) := by
  obtain ⟨hmarks, hlater, hboth⟩ := List.pairwise_append.1 h
  refine List.pairwise_append.2 ⟨hmarks, List.pairwise_cons.2 ⟨?_, hlater⟩, ?_⟩
  · intro r' _ t ht
    rw [hr] at ht
    cases ht
  · intro mark hmark r' hr' t ht e he
    rcases List.mem_cons.1 hr' with rfl | hr'
    · obtain ⟨t', ht', rfl⟩ := Option.map_eq_some_iff.1 (Option.mem_toList.1 hmark)
      cases ht
      exact hrel e he t ht'
    · exact hboth mark hmark r' hr' t ht e he

theorem Awaits.keeps_requests {w : Watermarks} {inbox : List Envelope} (h : w.Awaits R inbox) :
    (w.lastWatermark ++ w.requests inbox).Pairwise (Request.Keeps R) := by
  have hclose : ∀ w : Watermarks,
      (w.lastWatermark ++ [Request.close]).Pairwise (Request.Keeps R) := by
    intro w
    refine keeps_cons ?_ rfl nofun
    rw [List.append_nil, lastWatermark]
    cases w.emitted with
    | none => exact .nil
    | some t => exact List.pairwise_singleton _ _
  induction inbox generalizing w with
  | nil => exact hclose w
  | cons e rest ih =>
    rw [Watermarks.requests]
    by_cases hopen : w.isOpen e.port = true
    · rw [if_pos hopen]
      obtain ⟨port, message⟩ := e
      cases message with
      | batch b =>
        refine keeps_cons (ih h.tail) rfl ?_
        rintro _ ⟨⟩ t ht
        exact h.rel hR hopen ht
      | barrier t => exact keeps_advance hR _ (ih h.barrier)
      | close =>
        dsimp only
        by_cases hall : (w.close port).1.allClosed = true
        · rw [if_pos hall]
          exact keeps_advance hR _ (hclose (w.close port).1)
        · rw [if_neg hall]
          exact keeps_advance hR _ (ih h.close)
    · rw [if_neg hopen]
      exact ih h.tail

end Antitone

end Watermarks

/-- While every port keeps a relation to its barriers, the requests keep it to watermarks. -/
theorem keeps_requests (hR : ∀ b, Antitone fun t => R t b) (ports : Nat)
    {inbox : List Envelope} (h : ∀ port, (messagesAt port inbox).Pairwise (Message.Keeps R)) :
    ((Watermarks.new ports).requests inbox).Pairwise (Request.Keeps R) :=
  (Watermarks.awaits_new ports h).keeps_requests hR

/-- While every port keeps its promises, no batch is handed over late. -/
theorem inTime_requests (ports : Nat) {inbox : List Envelope}
    (h : ∀ port, (messagesAt port inbox).Pairwise KeepsBarrier) :
    Request.InTime ((Watermarks.new ports).requests inbox) :=
  keeps_requests (R := fun t b => b.After t) (fun _ _ _ hle h => Batch.After.of_le h hle) ports h

/-- Watermarks are barriers of the inbox, or marks from before. -/
theorem forall_watermark_mem_requests {P : Instant → Prop} {w : Watermarks} {inbox : List Envelope}
    (hmarks : w.Marked P) (hinbox : ∀ e ∈ inbox, ∀ t ∈ e.message.barrier?, P t) :
    ∀ t, .watermark t ∈ w.requests inbox → P t := by
  have hof : ∀ {mark : Option Instant} {t : Instant}, (∀ t ∈ mark, P t) →
      .watermark t ∈ (mark.map Request.watermark).toList → P t := by
    intro mark t hmark ht
    obtain ⟨_, hsome, ⟨⟩⟩ := Option.map_eq_some_iff.1 (Option.mem_toList.1 ht)
    exact hmark t hsome
  induction inbox generalizing w with
  | nil =>
    intro t ht
    cases List.mem_singleton.1 ht
  | cons e rest ih =>
    have hrest : ∀ e ∈ rest, ∀ t ∈ e.message.barrier?, P t :=
      fun e he => hinbox e (List.mem_cons_of_mem _ he)
    intro t ht
    rw [Watermarks.requests] at ht
    by_cases hopen : w.isOpen e.port = true
    · rw [if_pos hopen] at ht
      obtain ⟨port, message⟩ := e
      cases message with
      | batch b =>
        rcases List.mem_cons.1 ht with ht | ht
        · cases ht
        · exact ih hmarks hrest t ht
      | barrier s =>
        obtain ⟨hnext, hmark⟩ := hmarks.observe port (hinbox _ List.mem_cons_self s rfl)
        exact (List.mem_append.1 ht).elim (hof hmark) (ih hnext hrest t)
      | close =>
        obtain ⟨hnext, hmark⟩ := hmarks.close port
        dsimp only at ht
        by_cases hall : (w.close port).1.allClosed = true
        · rw [if_pos hall] at ht
          refine (List.mem_append.1 ht).elim (hof hmark) fun ht => ?_
          cases List.mem_singleton.1 ht
        · rw [if_neg hall] at ht
          exact (List.mem_append.1 ht).elim (hof hmark) (ih hnext hrest t)
    · rw [if_neg hopen] at ht
      exact ih hmarks hrest t ht

/-- Only batches of the inbox are handed over. -/
theorem mem_of_batch_mem_requests {w : Watermarks} {inbox : List Envelope} {port : Nat} {b : Batch}
    (h : .batch port b ∈ w.requests inbox) : ⟨port, .batch b⟩ ∈ inbox := by
  induction inbox generalizing w with
  | nil => cases List.mem_singleton.1 h
  | cons e rest ih =>
    rw [Watermarks.requests] at h
    have hmark : ∀ mark : Option Instant,
        .batch port b ∉ (mark.map Request.watermark).toList := by
      rintro (_ | t) hmem
      · cases hmem
      · cases List.mem_singleton.1 hmem
    split at h
    · obtain ⟨number, message⟩ := e
      cases message with
      | batch b' =>
        rcases List.mem_cons.1 h with h | h
        · cases h
          exact List.mem_cons_self
        · exact List.mem_cons_of_mem _ (ih h)
      | barrier t =>
        exact List.mem_cons_of_mem _ (ih ((List.mem_append.1 h).resolve_left (hmark _)))
      | close =>
        dsimp only at h
        by_cases hall : (w.close number).1.allClosed = true
        · rw [if_pos hall] at h
          cases List.mem_singleton.1 ((List.mem_append.1 h).resolve_left (hmark _))
        · rw [if_neg hall] at h
          exact List.mem_cons_of_mem _ (ih ((List.mem_append.1 h).resolve_left (hmark _)))
    · exact List.mem_cons_of_mem _ (ih h)

end SeriesPipeline
