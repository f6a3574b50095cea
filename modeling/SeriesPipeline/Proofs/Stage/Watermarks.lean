import Mathlib.Data.List.ReduceOption
import Mathlib.Order.MinMax
import SeriesPipeline.Proofs.Time.Order
import SeriesPipeline.Stage.Watermarks

/-!
# What a watermark promises

While a port is open, the watermark that was given out last is at most the mark of that port.
Watermarks only grow.
-/

namespace SeriesPipeline.Watermarks

theorem le_of_least? {marks : List (Option Instant)} {t : Instant} (h : least? marks = some t) :
    ∀ mark ∈ marks, ∃ m ∈ mark, t ≤ m := by
  induction marks generalizing t with
  | nil => cases h
  | cons mark rest ih =>
    cases rest with
    | nil =>
      intro mark' hmark
      rw [List.mem_singleton.1 hmark]
      exact ⟨t, h, le_refl t⟩
    | cons next rest =>
      simp only [least?, Option.bind_eq_bind, Option.bind_eq_some_iff, Option.pure_def,
        Option.some.injEq] at h
      obtain ⟨m, hm, low, hlow, rfl⟩ := h
      intro mark' hmark
      rcases List.mem_cons.1 hmark with rfl | hmark
      · exact ⟨m, hm, min_le_left m low⟩
      · obtain ⟨m', hm', hle⟩ := ih hlow mark' hmark
        exact ⟨m', hm', le_trans (min_le_right m low) hle⟩

theorem combined_le {w : Watermarks} {t : Instant} (h : w.combined = some t) :
    ∀ port ∈ w.ports, port.isOpen = true → ∃ m ∈ port.mark, t ≤ m := by
  intro port hport hopen
  have hmem : port ∈ w.ports.filter (·.isOpen) := List.mem_filter.2 ⟨hport, hopen⟩
  have hsome : (w.ports.filter (·.isOpen)).isEmpty = false := by
    rw [List.isEmpty_eq_false_iff]
    exact List.ne_nil_of_mem hmem
  rw [combined] at h
  simp only [hsome] at h
  exact le_of_least? h port.mark (List.mem_map_of_mem hmem)

theorem mem_of_least? {marks : List (Option Instant)} {t : Instant} (h : least? marks = some t) :
    some t ∈ marks := by
  induction marks generalizing t with
  | nil => cases h
  | cons mark rest ih =>
    cases rest with
    | nil => exact List.mem_singleton.2 h.symm
    | cons next rest =>
      simp only [least?, Option.bind_eq_bind, Option.bind_eq_some_iff, Option.pure_def,
        Option.some.injEq] at h
      obtain ⟨m, hm, low, hlow, rfl⟩ := h
      rcases min_choice m low with hmin | hmin
      · rw [hmin, ← hm]
        exact List.mem_cons_self
      · rw [hmin]
        exact List.mem_cons_of_mem _ (ih hlow)

/-- The watermark is the mark of some port. -/
theorem exists_mark_of_combined {w : Watermarks} {t : Instant} (h : w.combined = some t) :
    ∃ port ∈ w.ports, port.mark = some t := by
  rw [combined] at h
  split at h
  · exact List.mem_map.1 (List.reduceOption_mem_iff.1 (List.max?_mem h))
  · obtain ⟨port, hport, hmark⟩ := List.mem_map.1 (mem_of_least? h)
    exact ⟨port, (List.mem_filter.1 hport).1, hmark⟩

/-- Every open port has promised the watermark that was given out last. -/
def Promised (w : Watermarks) : Prop :=
  ∀ t ∈ w.emitted, ∀ port ∈ w.ports, port.isOpen = true → ∃ m ∈ port.mark, t ≤ m

theorem promised_new (ports : Nat) : (new ports).Promised := by
  intro t ht
  cases ht

@[simp] theorem ports_advance (w : Watermarks) : w.advance.1.ports = w.ports := by
  rw [advance]
  split
  · rfl
  · split <;> rfl

theorem length_ports_observe (w : Watermarks) (port : Nat) (t : Instant) :
    (w.observe port t).1.ports.length = w.ports.length := by
  rw [observe, ports_advance, List.length_modify]

theorem length_ports_close (w : Watermarks) (port : Nat) :
    (w.close port).1.ports.length = w.ports.length := by
  rw [close, ports_advance, List.length_modify]

/-- A new watermark is beyond the last one, and is the last one from then on. -/
theorem of_advance_eq_some {w : Watermarks} {t : Instant} (h : w.advance.2 = some t) :
    w.advance.1.emitted = some t ∧ ∀ s ∈ w.emitted, s < t := by
  rw [advance] at h ⊢
  split at h
  · cases h
  · rename_i next hnext
    by_cases hgrown : w.emitted.all (· < next)
    · simp only [hgrown, if_true] at h ⊢
      cases h
      refine ⟨rfl, fun s hs => ?_⟩
      rw [Option.mem_def] at hs
      rw [hs] at hgrown
      exact of_decide_eq_true hgrown
    · simp only [hgrown] at h
      cases h

/-- A new watermark is the mark of some port. -/
theorem exists_mark_of_advance {w : Watermarks} {t : Instant} (h : w.advance.2 = some t) :
    ∃ port ∈ w.ports, port.mark = some t := by
  rw [advance] at h
  split at h
  · cases h
  · rename_i next hnext
    split at h
    · cases h
      exact exists_mark_of_combined hnext
    · cases h

theorem emitted_advance_of_none {w : Watermarks} (h : w.advance.2 = none) :
    w.advance.1.emitted = w.emitted := by
  rw [advance] at h ⊢
  split at h
  · rfl
  · split at h
    · cases h
    · rename_i hgrown
      rw [if_neg hgrown]

theorem Promised.advance {w : Watermarks} (h : w.Promised) : w.advance.1.Promised := by
  rw [Watermarks.advance]
  split
  · exact h
  · rename_i next hnext
    split
    · intro t ht
      cases ht
      exact combined_le hnext
    · exact h

/-- Ports that are no longer open, or have promised more, still keep what was given out. -/
theorem Promised.modify {w : Watermarks} (h : w.Promised) (port : Nat) (f : Port → Port)
    (hopen : ∀ p, (f p).isOpen = true → p.isOpen = true)
    (hmark : ∀ p, ∀ m ∈ p.mark, ∃ m' ∈ (f p).mark, m ≤ m') :
    ({ w with ports := w.ports.modify port f } : Watermarks).Promised := by
  intro t ht p hp hpopen
  obtain ⟨i, hi⟩ := List.mem_iff_getElem?.1 hp
  rw [List.getElem?_modify] at hi
  obtain ⟨q, hq, rfl⟩ := Option.map_eq_some_iff.1 hi
  have hqmem : q ∈ w.ports := List.mem_of_getElem? hq
  -- the changed port was open before, and its mark has not gone back
  by_cases hport : port = i
  · simp only [hport, if_true] at hpopen ⊢
    obtain ⟨m, hm, hle⟩ := h t ht q hqmem (hopen q hpopen)
    obtain ⟨m', hm', hle'⟩ := hmark q m hm
    exact ⟨m', hm', le_trans hle hle'⟩
  · simp only [hport, if_false] at hpopen ⊢
    exact h t ht q hqmem hpopen

theorem Promised.observe {w : Watermarks} (h : w.Promised) (port : Nat) (t : Instant) :
    (w.observe port t).1.Promised := by
  apply Promised.advance
  refine h.modify port (Port.observe · t) (fun _ hp => hp) ?_
  intro p m hm
  rw [Option.mem_def] at hm
  refine ⟨max m t, ?_, le_max_left m t⟩
  simp only [Port.observe, hm, Option.mem_def]

theorem Promised.close {w : Watermarks} (h : w.Promised) (port : Nat) :
    (w.close port).1.Promised := by
  apply Promised.advance
  refine h.modify port ({ · with isOpen := false }) ?_ fun p m hm => ⟨m, hm, le_refl m⟩
  intro p hp
  cases hp

/-! ## Where watermarks come from -/

/-- All marks have the property. -/
def Marked (P : Instant → Prop) (w : Watermarks) : Prop := ∀ port ∈ w.ports, ∀ m ∈ port.mark, P m

variable {P : Instant → Prop} {w : Watermarks}

theorem marked_new (P : Instant → Prop) (ports : Nat) : (new ports).Marked P := by
  intro port hport m hm
  rw [(List.mem_replicate.1 hport).2] at hm
  cases hm

theorem Marked.advance (h : w.Marked P) : w.advance.1.Marked P ∧ ∀ t ∈ w.advance.2, P t := by
  refine ⟨fun port hport => h port (ports_advance w ▸ hport), fun t ht => ?_⟩
  obtain ⟨port, hport, hmark⟩ := exists_mark_of_advance ht
  exact h port hport t hmark

theorem Marked.modify (h : w.Marked P) (port : Nat) {f : Port → Port}
    (hf : ∀ p, (∀ m ∈ p.mark, P m) → ∀ m ∈ (f p).mark, P m) :
    ({ w with ports := w.ports.modify port f } : Watermarks).Marked P := by
  intro p hp
  obtain ⟨i, hi⟩ := List.mem_iff_getElem?.1 hp
  rw [List.getElem?_modify] at hi
  obtain ⟨old, hold, rfl⟩ := Option.map_eq_some_iff.1 hi
  have hmarks := h old (List.mem_of_getElem? hold)
  split
  · exact hf old hmarks
  · exact hmarks

theorem Marked.observe (h : w.Marked P) (port : Nat) {t : Instant} (ht : P t) :
    (w.observe port t).1.Marked P ∧ ∀ t' ∈ (w.observe port t).2, P t' := by
  refine (h.modify port (f := (Port.observe · t)) fun p hp m hm => ?_).advance
  cases hmark : p.mark with
  | none =>
    rw [Port.observe, hmark] at hm
    exact Option.some.inj hm ▸ ht
  | some m' =>
    rw [Port.observe, hmark] at hm
    have heq : m = max m' t := (Option.some.inj hm).symm
    rcases max_choice m' t with hmax | hmax
    · rw [heq, hmax]
      exact hp m' hmark
    · rw [heq, hmax]
      exact ht

theorem Marked.close (h : w.Marked P) (port : Nat) :
    (w.close port).1.Marked P ∧ ∀ t ∈ (w.close port).2, P t :=
  (h.modify port (f := ({ · with isOpen := false })) fun _ hp => hp).advance

end SeriesPipeline.Watermarks
