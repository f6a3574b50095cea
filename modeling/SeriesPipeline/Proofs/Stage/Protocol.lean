import Mathlib.Algebra.BigOperators.Group.Finset.Piecewise
import Mathlib.Data.List.TakeWhile
import SeriesPipeline.Proofs.Stage.Ports
import SeriesPipeline.Proofs.Task.Logs

/-!
# The output protocol of stages

Whatever an inbox holds, a stage sends the same on every outlet: batches, barriers that strictly
increase, each right after what the operator answers to its watermark, and one close at the end.
-/

namespace SeriesPipeline

/-- What a stage comes to when nothing more arrives. -/
def Course.conclude (c : Course) : Stage × Reaction × Option Failure :=
  match c.progress with
  | .running => (c.stage.finish.1, c.reaction ++ c.stage.finish.2, none)
  | .finished => (c.stage, c.reaction, none)
  | .failed cause => (c.stage, c.reaction, some cause)

theorem Course.conclude_after (r : Reaction) (c : Course) :
    (c.after r).conclude = (c.conclude.1, r ++ c.conclude.2.1, c.conclude.2.2) := by
  obtain ⟨s, reaction, progress⟩ := c
  cases progress with
  | running => exact congrArg (s.finish.1, ·, none) (Reaction.append_assoc ..)
  | finished => rfl
  | failed cause => rfl

/-- Nothing but batches is added in the end. -/
theorem Course.exists_conclude_eq (c : Course) : ∃ last : List Batch,
    c.conclude.2.1.sent = c.reaction.sent ++ last.map .batch ∧
      c.conclude.1.batchesIn = c.stage.batchesIn ∧
      c.conclude.1.batchesOut = c.stage.batchesOut + last.length := by
  obtain ⟨s, reaction, progress⟩ := c
  cases progress with
  | running => exact ⟨s.operator.onClose.2.batches, rfl, rfl, rfl⟩
  | finished => exact ⟨[], (List.append_nil _).symm, rfl, rfl⟩
  | failed cause => exact ⟨[], (List.append_nil _).symm, rfl, rfl⟩

/-- The batches that come on a port before its first close. -/
def batchesBeforeClose (port : Nat) (inbox : List Envelope) : List Batch :=
  batchesOf ((messagesAt port inbox).takeWhile (!·.isClose))

section BatchesBeforeClose

variable {port : Nat} {inbox : List Envelope} {e : Envelope}

theorem batchesBeforeClose_concat_of_ne (h : e.port ≠ port) :
    batchesBeforeClose port (inbox ++ [e]) = batchesBeforeClose port inbox := by
  have hnone : messagesAt port [] = [] := rfl
  rw [batchesBeforeClose, messagesAt_append, messagesAt_cons, if_neg h, hnone, List.append_nil,
    batchesBeforeClose]

theorem batchesBeforeClose_concat_of_mem (h : ⟨port, .close⟩ ∈ inbox) :
    batchesBeforeClose port (inbox ++ [e]) = batchesBeforeClose port inbox := by
  have hends : ((messagesAt port inbox).takeWhile (!·.isClose)).length ≠
      (messagesAt port inbox).length := by
    intro hall
    have heq := (List.takeWhile_prefix (!Message.isClose ·)).eq_of_length hall
    cases List.takeWhile_eq_self_iff.1 heq _ (mem_messagesAt.2 h)
  rw [batchesBeforeClose, messagesAt_append, List.takeWhile_append, if_neg hends]
  rfl

theorem batchesBeforeClose_concat_of_notMem (h : ⟨e.port, .close⟩ ∉ inbox) :
    batchesBeforeClose e.port (inbox ++ [e]) =
      batchesBeforeClose e.port inbox ++ e.message.batch?.toList := by
  have hopen : ∀ m ∈ messagesAt e.port inbox, (!m.isClose) = true := by
    intro m hm
    cases m with
    | close => exact absurd (mem_messagesAt.1 hm) h
    | batch b => rfl
    | barrier t => rfl
  rw [batchesBeforeClose, messagesAt_append, messagesAt_cons, if_pos rfl,
    List.takeWhile_append_of_pos hopen, batchesOf_append, batchesBeforeClose,
    List.takeWhile_eq_self_iff.2 hopen]
  cases e.message <;> rfl

end BatchesBeforeClose

namespace Stage

/-- What a stage takes of an inbox until it ends. -/
def taken (now : Instant) (s : Stage) : List Envelope → List Envelope
  | [] => []
  | e :: rest =>
    match s.receive now e with
    | (s, _, .running) => e :: taken now s rest
    | _ => [e]

variable {now : Instant} {s : Stage} {id : String} {op : Operator} {ports : Nat}
  {inbox begun : List Envelope} {e : Envelope}

theorem process_eq (s : Stage) (inbox : List Envelope) :
    s.process now inbox = (s.course now inbox).conclude := by
  induction inbox generalizing s with
  | nil => rfl
  | cons e rest ih =>
    rcases hreceive : s.receive now e with ⟨s', r, progress⟩
    rw [process, hreceive]
    cases progress with
    | running =>
      rw [course_cons_of_running hreceive, Course.conclude_after, ← ih]
    | finished =>
      rw [course_cons_of_ended hreceive (by rintro ⟨⟩)]
      rfl
    | failed cause =>
      rw [course_cons_of_ended hreceive (by rintro ⟨⟩)]
      rfl

/-- What a stage takes, it takes while it is on its way, and what is left makes no difference. -/
theorem taken_spec (now : Instant) (s : Stage) (inbox : List Envelope) :
    s.course now (s.taken now inbox) = s.course now inbox ∧
      ∀ before e, s.taken now inbox = before ++ [e] →
        (s.course now before).progress = .running := by
  induction inbox generalizing s with
  | nil => exact ⟨rfl, fun before e h => absurd h.symm (List.concat_ne_nil e before)⟩
  | cons e rest ih =>
    rcases hreceive : s.receive now e with ⟨s', r, progress⟩
    by_cases hrunning : progress = .running
    · subst hrunning
      obtain ⟨hcourse, hbefore⟩ := ih s'
      rw [taken, hreceive]
      refine ⟨?_, fun before e' h => ?_⟩
      · rw [course_cons_of_running hreceive, hcourse, course_cons_of_running hreceive]
      · cases before with
        | nil => rfl
        | cons first before =>
          obtain ⟨rfl, hrest⟩ := List.cons.inj h
          rw [course_cons_of_running hreceive]
          exact hbefore before e' hrest
    · have htaken : s.taken now (e :: rest) = [e] := by
        rw [taken, hreceive]
        cases progress with
        | running => exact absurd rfl hrunning
        | finished => rfl
        | failed cause => rfl
      rw [htaken, course_cons_of_ended hreceive hrunning, course_cons_of_ended hreceive hrunning]
      refine ⟨rfl, fun before e' h => ?_⟩
      cases before with
      | nil => rfl
      | cons first before => exact absurd (List.cons.inj h).2.symm (List.concat_ne_nil e' before)

/-! ## Courses -/

theorem running_of_concat (h : (s.course now (begun ++ [e])).progress = .running) :
    (s.course now begun).progress = .running := by
  by_contra hended
  rw [course_concat, Course.take_of_ended hended] at h
  exact hended h

theorem sent_course_isPrefix (s : Stage) (begun rest : List Envelope) :
    (s.course now begun).reaction.sent <+: (s.course now (begun ++ rest)).reaction.sent := by
  induction rest using List.reverseRecOn with
  | nil => rw [List.append_nil]
  | append_singleton rest e ih =>
    rw [← List.append_assoc, course_concat]
    refine ih.trans ?_
    by_cases hrunning : (s.course now (begun ++ rest)).progress = .running
    · rw [Course.take_of_running hrunning]
      exact List.prefix_append _ _
    · rw [Course.take_of_ended hrunning]

/-- The barriers that a stage has sent increase up to the last watermark. -/
theorem barriers_course (id : String) (op : Operator) (ports : Nat) (begun : List Envelope) :
    let c := (new id op ports).course now begun
    (barriersOf c.reaction.sent).Pairwise (· < ·) ∧
      ∀ t ∈ barriersOf c.reaction.sent, ∃ m ∈ c.stage.marks.emitted, t ≤ m := by
  induction begun using List.reverseRecOn with
  | nil => exact ⟨.nil, nofun⟩
  | append_singleton begun e ih =>
    rw [course_concat]
    by_cases hrunning : ((new id op ports).course now begun).progress = .running
    · obtain ⟨hgrow, hlast⟩ := ih
      rw [Course.take_of_running hrunning]
      generalize (new id op ports).course now begun = c at hgrow hlast
      have hheeds := heeds_receive now c.stage e
      have hsplit : barriersOf (c.reaction ++ (c.stage.receive now e).2.1).sent =
          barriersOf c.reaction.sent ++ (c.stage.marks.heed e).2.toList :=
        (barriersOf_append ..).trans (by rw [hheeds.barriers])
      dsimp only
      rw [hheeds.marks, hsplit]
      cases hmark : (c.stage.marks.heed e).2 with
      | none =>
        rw [Option.toList_none, List.append_nil, Watermarks.emitted_heed_of_none hmark]
        exact ⟨hgrow, hlast⟩
      | some t =>
        obtain ⟨hemitted, hbeyond⟩ := Watermarks.of_heed_eq_some hmark
        -- a watermark that has grown is beyond the last one, which bounds the barriers before
        have hless : ∀ t' ∈ barriersOf c.reaction.sent, t' < t := by
          intro t' ht'
          obtain ⟨m, hm, hle⟩ := hlast t' ht'
          exact lt_of_le_of_lt hle (hbeyond m hm)
        rw [hemitted]
        refine ⟨List.pairwise_append.2 ⟨hgrow, List.pairwise_singleton _ _, ?_⟩, ?_⟩
        · exact fun t' ht' m hm => List.mem_singleton.1 hm ▸ hless t' ht'
        · intro t' ht'
          refine ⟨t, rfl, ?_⟩
          rcases List.mem_append.1 ht' with ht' | ht'
          · exact le_of_lt (hless t' ht')
          · exact le_of_eq (List.mem_singleton.1 ht')
    · rw [Course.take_of_ended hrunning]
      exact ih

theorem batchesOut_course (s : Stage) (begun : List Envelope) :
    (s.course now begun).stage.batchesOut =
      s.batchesOut + (batchesOf (s.course now begun).reaction.sent).length := by
  induction begun using List.reverseRecOn with
  | nil => rfl
  | append_singleton begun e ih =>
    rw [course_concat]
    by_cases hrunning : (s.course now begun).progress = .running
    · rw [Course.take_of_running hrunning]
      refine (heeds_receive now _ e).batchesOut.trans ?_
      rw [ih, Nat.add_assoc]
      exact congrArg (_ + ·)
        ((congrArg List.length (batchesOf_append ..)).trans List.length_append).symm
    · rw [Course.take_of_ended hrunning]
      exact ih

/-- A stage counts the batches that have come on its ports before their closes. -/
theorem batchesIn_course
    (hbefore : ∀ before e, begun = before ++ [e] →
      ((new id op ports).course now before).progress = .running) :
    ((new id op ports).course now begun).stage.batchesIn =
      ∑ port ∈ Finset.range ports, (batchesBeforeClose port begun).length := by
  induction begun using List.reverseRecOn with
  | nil => exact Finset.sum_const_zero.symm
  | append_singleton begun e ih =>
    have hrunning := hbefore begun e rfl
    have hcount := ih fun before e' hbegun => running_of_concat (hbegun ▸ hrunning)
    have hopen := (onWay_course hrunning).isOpen e.port
    have hlength (port : Nat) (hport : port < ports) :
        (batchesBeforeClose port (begun ++ [e])).length = (batchesBeforeClose port begun).length +
          if e.port = port then
            if ((new id op ports).course now begun).stage.marks.isOpen e.port
            then e.message.batch?.toList.length else 0
          else 0 := by
      by_cases hsame : e.port = port
      · subst hsame
        rw [if_pos rfl]
        by_cases hclose : ⟨e.port, .close⟩ ∈ begun
        · rw [batchesBeforeClose_concat_of_mem hclose, if_neg fun h => (hopen.1 h).2 hclose]
          rfl
        · rw [batchesBeforeClose_concat_of_notMem hclose, List.length_append,
            if_pos (hopen.2 ⟨hport, hclose⟩)]
      · rw [batchesBeforeClose_concat_of_ne hsame, if_neg hsame]
        rfl
    rw [course_concat, Course.take_of_running hrunning]
    refine (heeds_receive now _ e).batchesIn.trans ?_
    rw [hcount, Finset.sum_congr rfl fun port hport => hlength port (Finset.mem_range.1 hport),
      Finset.sum_add_distrib, Finset.sum_ite_eq]
    -- the envelope is for a port of the stage, or no port is open for it
    by_cases hport : e.port < ports
    · rw [if_pos (Finset.mem_range.2 hport)]
    · rw [if_neg fun h => hport (Finset.mem_range.1 h), if_neg fun h => hport (hopen.1 h).1]

/-- A message for a closed port makes no difference. -/
theorem course_concat_of_closed (h : ⟨e.port, .close⟩ ∈ begun) :
    (new id op ports).course now (begun ++ [e]) = (new id op ports).course now begun := by
  rw [course_concat]
  by_cases hrunning : ((new id op ports).course now begun).progress = .running
  · have honWay := onWay_course hrunning
    have hreceive : ((new id op ports).course now begun).stage.receive now e = _ :=
      receive_of_not_isOpen (lt_of_lt_of_eq (honWay.known ⟨e.port, .close⟩ h) honWay.length.symm)
        (Bool.eq_false_iff.2 fun hopen => ((honWay.isOpen _).1 hopen).2 h)
    rw [Course.take_of_running hrunning, hreceive, Reaction.append_none, ← hrunning]
  · exact Course.take_of_ended hrunning

/-! ## Barriers -/

/-- The start of two lists, one after the other. -/
theorem concat_isPrefix_append {α : Type} {l r before : List α} {a : α}
    (h : before ++ [a] <+: l ++ r) :
    before ++ [a] <+: l ∨ ∃ more, before = l ++ more ∧ more ++ [a] <+: r := by
  rcases Nat.lt_or_ge before.length l.length with hlt | hge
  · refine .inl (List.prefix_of_prefix_length_le h (List.prefix_append _ _) ?_)
    rw [List.length_append]
    exact hlt
  · obtain ⟨more, rfl⟩ := List.prefix_of_prefix_length_le (List.prefix_append l r)
      ((List.prefix_append _ _).trans h) hge
    rw [List.append_assoc] at h
    exact .inr ⟨more, rfl, (List.prefix_append_right_inj l).1 h⟩

theorem mem_barriersOf {t : Instant} {messages : List Message} :
    t ∈ barriersOf messages ↔ .barrier t ∈ messages := by
  refine ⟨fun h => ?_, fun h => List.mem_filterMap.2 ⟨_, h, rfl⟩⟩
  obtain ⟨m, hm, ht⟩ := List.mem_filterMap.1 h
  cases m with
  | barrier t' =>
    cases ht
    exact hm
  | batch b => cases ht
  | close => cases ht

/-- The one barrier of an envelope comes right after the answer to its watermark. -/
theorem Heeds.of_barrier {s' : Stage} {reaction : Reaction} {progress : Progress}
    (h : s.Heeds e s' reaction progress) {before : List Message} {t : Instant}
    (hbefore : before ++ [.barrier t] <+: reaction.sent) :
    (s.marks.heed e).2 = some t ∧ before = (s.operator.onWatermark t).2.batches.map .batch := by
  have hmem : t ∈ (s.marks.heed e).2.toList := by
    rw [← h.barriers]
    exact mem_barriersOf.2 (hbefore.subset (List.mem_append_right _ List.mem_cons_self))
  have hmark : (s.marks.heed e).2 = some t := Option.mem_toList.1 hmem
  have hbarriers := h.barriers
  obtain ⟨later, hlater⟩ := h.flush t hmark
  obtain ⟨later', hlater'⟩ := hbefore
  rw [List.append_assoc] at hlater hlater'
  rw [hmark, ← hlater, barriersOf_append, barriersOf_map_batch] at hbarriers
  have hnone : barriersOf later = [] := (List.cons.inj hbarriers).2
  refine ⟨hmark, (((List.append_cons_inj_of_notMem ?_ ?_).1 (hlater.trans hlater'.symm)).1).symm⟩
  · simp
  · intro (hmem : .barrier t ∈ later)
    rw [← mem_barriersOf, hnone] at hmem
    cases hmem

/-- When a stage sends a barrier: after the answer to a watermark that has grown. -/
theorem barrier_isPrefix_course_iff {before : List Message} {t : Instant} :
    before ++ [.barrier t] <+: (s.course now inbox).reaction.sent ↔
      ∃ begun e, begun ++ [e] <+: inbox ∧ (s.course now begun).progress = .running ∧
        ((s.course now begun).stage.marks.heed e).2 = some t ∧
        before = (s.course now begun).reaction.sent ++
          ((s.course now begun).stage.operator.onWatermark t).2.batches.map .batch := by
  constructor
  · intro h
    induction inbox using List.reverseRecOn with
    | nil => exact absurd (List.prefix_nil.1 h) (List.append_ne_nil_of_right_ne_nil _ nofun)
    | append_singleton inbox e ih =>
      rw [course_concat] at h
      by_cases hrunning : (s.course now inbox).progress = .running
      · rw [Course.take_of_running hrunning] at h
        rcases concat_isPrefix_append h with h | ⟨more, rfl, hmore⟩
        · obtain ⟨begun, e', hbegun, hrest⟩ := ih h
          exact ⟨begun, e', hbegun.trans (List.prefix_append _ _), hrest⟩
        · obtain ⟨hmark, rfl⟩ := (heeds_receive now _ e).of_barrier hmore
          exact ⟨inbox, e, List.prefix_refl _, hrunning, hmark, rfl⟩
      · rw [Course.take_of_ended hrunning] at h
        obtain ⟨begun, e', hbegun, hrest⟩ := ih h
        exact ⟨begun, e', hbegun.trans (List.prefix_append _ _), hrest⟩
  · rintro ⟨begun, e, ⟨rest, rfl⟩, hrunning, hmark, rfl⟩
    refine List.IsPrefix.trans ?_ (sent_course_isPrefix s (begun ++ [e]) rest)
    rw [course_concat, Course.take_of_running hrunning, List.append_assoc]
    exact (List.prefix_append_right_inj _).2 ((heeds_receive now _ e).flush t hmark)

/-! ## Runs -/

/-- What a stage sends in all, and its counters. -/
theorem exists_run_eq (s : Stage) (now : Instant) (inbox : List Envelope) :
    ∃ last : List Batch,
      (s.run now inbox).2.1.sent =
        (s.course now inbox).reaction.sent ++ (last.map .batch ++ [.close]) ∧
      (s.run now inbox).1.stats.batchesIn = (s.course now inbox).stage.batchesIn ∧
      (s.run now inbox).1.stats.batchesOut =
        (s.course now inbox).stage.batchesOut + last.length := by
  obtain ⟨last, hsent, hin, hout⟩ := (s.course now inbox).exists_conclude_eq
  rw [run, process_eq]
  refine ⟨last, ?_, hin, hout⟩
  rw [← List.append_assoc, ← hsent]
  rfl

theorem barriersOf_last (last : List Batch) :
    barriersOf (last.map .batch ++ [.close]) = [] := by
  rw [barriersOf_append, barriersOf_map_batch]
  rfl

/-- A stage sends the same on every outlet, for any inbox: batches, barriers that increase, and one
close, which comes last. A barrier comes right after what the operator answers to its watermark.
Messages for a closed port make no difference. The counters are those of the batches sent on an
outlet, and of the batches taken from open ports, up to and with the one that the stage fails on. -/
theorem run_keeps_protocol (now : Instant) (id : String) (op : Operator) (ports : Nat)
    (inbox : List Envelope) :
    let s := new id op ports
    let sent := (s.run now inbox).2.1.sent
    let stats := (s.run now inbox).1.stats
    (∀ (outlets : List Outlet) (o : Outlet), sentOn o ((Process.new s outlets).broadcast sent) =
      sent.flatMap (List.replicate (outlets.count o))) ∧
    (∃ body, .close ∉ body ∧ sent = body ++ [.close]) ∧
    (barriersOf sent).Pairwise (· < ·) ∧
    (∀ (before : List Message) (t : Instant), before ++ [.barrier t] <+: sent ↔
      ∃ begun e, begun ++ [e] <+: inbox ∧ (s.course now begun).progress = .running ∧
        ((s.course now begun).stage.marks.heed e).2 = some t ∧
        before = (s.course now begun).reaction.sent ++
          ((s.course now begun).stage.operator.onWatermark t).2.batches.map .batch) ∧
    (∀ (before between after : List Envelope) (port : Nat) (m : Message),
      s.run now (before ++ ⟨port, .close⟩ :: between ++ ⟨port, m⟩ :: after) =
        s.run now (before ++ ⟨port, .close⟩ :: between ++ after)) ∧
    stats.batchesOut = (batchesOf sent).length ∧
    stats.batchesIn =
      ∑ port ∈ Finset.range ports, (batchesBeforeClose port (s.taken now inbox)).length := by
  intro s sent stats
  obtain ⟨last, hsent, hin, hout⟩ := s.exists_run_eq now inbox
  refine ⟨fun outlets o => sentOn_broadcast _ o sent, s.closes_run now inbox, ?_, ?_, ?_, ?_, ?_⟩
  · rw [show sent = _ from hsent, barriersOf_append, barriersOf_last, List.append_nil]
    exact (barriers_course id op ports inbox).1
  · intro before t
    rw [← barrier_isPrefix_course_iff, show sent = _ from hsent]
    refine ⟨fun h => (concat_isPrefix_append h).resolve_right ?_,
      fun h => h.trans (List.prefix_append _ _)⟩
    rintro ⟨more, -, hmore⟩
    have hmem := hmore.subset (List.mem_append_right _ List.mem_cons_self)
    rw [← mem_barriersOf, barriersOf_last] at hmem
    cases hmem
  · intro before between after port m
    have hclosed : ⟨port, .close⟩ ∈ before ++ ⟨port, .close⟩ :: between :=
      List.mem_append_right _ List.mem_cons_self
    have hcourse : s.course now (before ++ ⟨port, .close⟩ :: between ++ ⟨port, m⟩ :: after) =
        s.course now (before ++ ⟨port, .close⟩ :: between ++ after) := by
      rw [List.append_cons, course, List.foldl_append]
      exact (congrArg (after.foldl (Course.take now)) (course_concat_of_closed hclosed)).trans
        (List.foldl_append ..).symm
    rw [run, run, process_eq, process_eq, hcourse]
  · have hclose : batchesOf [.close] = [] := rfl
    have hcount : s.batchesOut = 0 := rfl
    rw [show stats.batchesOut = _ from hout, show sent = _ from hsent, batchesOut_course, hcount,
      batchesOf_append, batchesOf_append, batchesOf_map_batch, hclose, List.append_nil,
      List.length_append, Nat.zero_add]
  · obtain ⟨hcourse, hbefore⟩ := s.taken_spec now inbox
    rw [show stats.batchesIn = _ from hin, ← hcourse]
    exact batchesIn_course hbefore

/-- A batch after the close of its port, a close that is repeated, a barrier that goes back, and an
unknown port. -/
example :
    let b : Batch := ⟨"m", ∅, ["v"], [⟨⟨7⟩, [.null]⟩], none⟩
    let inbox : List Envelope :=
      [⟨0, .barrier ⟨5⟩⟩, ⟨1, .barrier ⟨3⟩⟩, ⟨0, .close⟩, ⟨0, .batch b⟩, ⟨1, .batch b⟩, ⟨0, .close⟩,
        ⟨1, .barrier ⟨2⟩⟩, ⟨2, .close⟩, ⟨1, .batch b⟩]
    let result := (new "output" (.publishing "output") 2).run .epoch inbox
    barriersOf result.2.1.sent = [⟨3⟩] ∧ (batchesOf result.2.1.sent).length = 1 ∧
      result.1.stats.batchesIn = 1 := by
  decide

end Stage

end SeriesPipeline
