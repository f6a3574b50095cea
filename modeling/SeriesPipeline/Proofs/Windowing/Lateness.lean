import SeriesPipeline.Proofs.Stage.Rows
import SeriesPipeline.Proofs.Windowing.Chains

/-!
# Late rows

A windowing without a horizon closes ends at watermarks only. So while no row comes after a later
barrier, no row is late.
-/

namespace SeriesPipeline

/-! ## Windowings -/

namespace Windowing

/-- `op` has no late rows, and has closed no end after all of the times. -/
structure Punctual (times : Instant → Prop) (op : Windowing) : Prop where
  unlimited : op.horizon = none
  every : 0 < op.every.reach
  late : op.lateRows = 0
  closed : ∀ stop, op.isClosed stop = true → ∃ t, times t ∧ stop ≤ t

variable {times : Instant → Prop} {op : Windowing} {b : Batch}

theorem punctual_new {period every : Span} (grouping : Grouping) (hevery : 0 < every.reach) :
    (new period every grouping none).Punctual times :=
  ⟨rfl, hevery, rfl, nofun⟩

theorem Punctual.imp {times' : Instant → Prop} (h : op.Punctual times)
    (htimes : ∀ t, times t → times' t) : op.Punctual times' :=
  ⟨h.unlimited, h.every, h.late, fun stop hstop =>
    let ⟨t, ht, hle⟩ := h.closed stop hstop
    ⟨t, htimes t ht, hle⟩⟩

/-- A row that is no earlier than the times belongs to open ends only. -/
theorem Punctual.isClosed_eq_false (h : op.Punctual times) {t : Instant}
    (hfrom : ∀ u, times u → u ≤ t) {stop : Instant}
    (hstop : stop ∈ coveringEnds op.period.reach op.every.reach t) : op.isClosed stop = false := by
  rw [← Bool.not_eq_true]
  intro hclosed
  -- a closed end is not after some time, but after the row
  obtain ⟨u, hu, hle⟩ := h.closed stop hclosed
  have hafter : t < stop := ((mem_coveringEnds h.every t stop).1 hstop).2.1
  exact absurd (hle.trans (hfrom u hu)) (not_le.2 hafter)

theorem Punctual.onBatch (h : op.Punctual times) (hb : ∀ t, times t → b.From t) :
    (op.onBatch b).1.Punctual times := by
  refine ⟨?_, (op.advances_onBatch b).every ▸ h.every, ?_, fun stop hstop => h.closed stop ?_⟩
  · obtain ⟨panes, late, unwindowed, heq⟩ :=
      foldl_addRow_eq (op.grouping.keyFor b) b.columns op b.rows
    rw [onBatch_of_unlimited h.unlimited, heq]
    exact h.unlimited
  · rw [onBatch_of_unlimited h.unlimited]
    refine (lateRows_foldl_addRow fun row hrow stop hstop => ?_).trans h.late
    exact h.isClosed_eq_false (fun u hu => hb u hu _ (List.mem_map_of_mem hrow)) hstop
  · rwa [isClosed_onBatch_of_unlimited h.unlimited] at hstop

theorem Punctual.onWatermark (h : op.Punctual times) {t : Instant} (ht : times t) :
    (op.onWatermark t).1.Punctual times := by
  refine ⟨h.unlimited, h.every, h.late, fun stop hstop => ?_⟩
  rcases (isClosed_closeThrough _ t stop).1 hstop with hstop | hle
  · exact h.closed stop hstop
  · exact ⟨t, ht, hle⟩

theorem Punctual.onClose (h : op.Punctual times) : op.onClose.Punctual times :=
  ⟨h.unlimited, h.every, h.late, h.closed⟩

end Windowing

/-! ## Stages -/

namespace Stage

/-- A stage that windows, with no row late and marked by some of the times. -/
structure Punctual (times : Instant → Prop) (s : Stage) : Prop where
  operator : ∃ op, s.operator = .windowing op ∧ op.Punctual times
  marked : s.marks.Marked times

variable {times : Instant → Prop} {now : Instant} {s : Stage} {e : Envelope}

theorem Punctual.imp {times' : Instant → Prop} (h : s.Punctual times)
    (htimes : ∀ t, times t → times' t) : s.Punctual times' := by
  obtain ⟨op, hop, hpunctual⟩ := h.operator
  exact ⟨⟨op, hop, hpunctual.imp htimes⟩, fun p hp m hm => htimes m (h.marked p hp m hm)⟩

theorem Punctual.lateRows (h : s.Punctual times) : s.stats.lateRows = 0 := by
  obtain ⟨op, hop, hpunctual⟩ := h.operator
  rw [stats, hop]
  exact hpunctual.late

theorem Punctual.advance (h : s.Punctual times) {mark : Option Instant}
    (hmark : ∀ t ∈ mark, times t) : (s.advance mark).1.Punctual times := by
  obtain ⟨op, hop, hpunctual⟩ := h.operator
  cases mark with
  | none => exact h
  | some t =>
    rw [Stage.advance, hop]
    exact ⟨⟨_, rfl, hpunctual.onWatermark (hmark t rfl)⟩, h.marked⟩

theorem Punctual.finish (h : s.Punctual times) : s.finish.1.Punctual times := by
  obtain ⟨op, hop, hpunctual⟩ := h.operator
  rw [Stage.finish, hop]
  exact ⟨⟨_, rfl, hpunctual.onClose⟩, h.marked⟩

theorem Punctual.takeClose (h : s.Punctual times) (port : Nat) :
    (s.takeClose port).1.Punctual times := by
  obtain ⟨hmarks, hmark⟩ := h.marked.close port
  have hadvanced : ({ s with marks := (s.marks.close port).1 } : Stage).Punctual times :=
    ⟨h.operator, hmarks⟩
  rw [Stage.takeClose]
  dsimp only
  split
  · exact (hadvanced.advance hmark).finish
  · exact hadvanced.advance hmark

theorem Punctual.receive (h : s.Punctual times) (hbarrier : ∀ t ∈ e.message.barrier?, times t)
    (hbatch : ∀ b ∈ e.message.batch?, ∀ t, times t → b.From t) :
    (s.receive now e).1.Punctual times := by
  rw [Stage.receive]
  split
  · exact h
  · split
    · split
      · rename_i b hmessage
        obtain ⟨op, hop, hpunctual⟩ := h.operator
        rw [takeBatch, hop]
        exact ⟨⟨_, rfl, hpunctual.onBatch (hbatch b (by rw [hmessage]; rfl))⟩, h.marked⟩
      · rename_i t hmessage
        obtain ⟨hmarks, hmark⟩ := h.marked.observe e.port (hbarrier t (by rw [hmessage]; rfl))
        have hobserved :
            ({ s with marks := (s.marks.observe e.port t).1 } : Stage).Punctual times :=
          ⟨h.operator, hmarks⟩
        exact hobserved.advance hmark
      · exact h.takeClose e.port
    · exact h

/-- While no row comes after a later barrier, a windowing without a horizon has no late rows. -/
theorem punctual_course (now : Instant) {op : Windowing} {ports : Nat} {taken : List Envelope}
    (hmarks : s.marks = .new ports) (hop : s.operator = .windowing op)
    (hpunctual : op.Punctual fun _ => False)
    (hkeeps : (taken.map (·.message)).Pairwise (Message.Keeps fun t b => b.From t)) :
    (s.course now taken).stage.Punctual fun t => .barrier t ∈ taken.map (·.message) := by
  induction taken using List.reverseRecOn with
  | nil => exact ⟨⟨op, hop, hpunctual.imp nofun⟩, hmarks ▸ Watermarks.marked_new _ ports⟩
  | append_singleton taken e ih =>
    rw [List.map_append, List.pairwise_append] at hkeeps
    obtain ⟨hbefore, -, hlast⟩ := hkeeps
    have hpast := ih hbefore
    have hmore := hpast.imp fun t ht =>
      show .barrier t ∈ (taken ++ [e]).map (·.message) from
        List.map_append ▸ List.mem_append_left _ ht
    rw [course_concat]
    by_cases hrunning : (s.course now taken).progress = .running
    · rw [Course.take_of_running hrunning]
      refine hmore.receive (fun t ht => ?_) fun b hb t ht => ?_
      · rw [List.map_append, ← Message.eq_barrier_of_mem ht]
        exact List.mem_append_right _ (List.mem_singleton_self _)
      · rw [List.map_append] at ht
        rcases List.mem_append.1 ht with ht | ht
        · exact hlast _ ht _ (List.mem_singleton_self _) t rfl b hb
        · -- the envelope has a batch, and no barrier
          have hmessage : e.message = .barrier t := (List.mem_singleton.1 ht).symm
          rw [hmessage] at hb
          cases hb
    · rw [Course.take_of_ended hrunning]
      exact hmore

end Stage

end SeriesPipeline
