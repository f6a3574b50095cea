import Mathlib.Data.Finset.Lattice.Fold
import Mathlib.Data.List.MinMax
import Mathlib.Order.WithBot
import SeriesPipeline.Proofs.Stage.Watermarks

/-!
# The low watermark of a history

What a history of barriers and closes makes of a stage's watermark, told from the history alone: the
least of the highest barriers of the open ports, or the highest barrier of any port when all have
closed. Marks are compared in `WithBot Instant`, where `⊥` is the mark of a port that has had no
barrier; so the least of some marks is `⊥` as soon as one of them is. The watermark that was given
out last is the low watermark of the history, which only grows, and a call gives out a watermark
exactly when it has grown.
-/

namespace SeriesPipeline.Watermarks

/-- A mark in the order of marks, where to have none is the lowest. -/
def height : Option Instant → WithBot Instant
  | none => ⊥
  | some t => t

/-- What a port tells: a barrier, or that it has closed. -/
inductive Call where
  | observe (port : Nat) (t : Instant)
  | close (port : Nat)
  deriving DecidableEq

namespace Call

def port : Call → Nat
  | .observe port _ => port
  | .close port => port

/-- The barrier of a call at a port. -/
def barrierAt? (port : Nat) : Call → Option Instant
  | .observe p t => if p = port then some t else none
  | .close _ => none

end Call

def take (w : Watermarks) : Call → Watermarks × Option Instant
  | .observe port t => w.observe port t
  | .close port => w.close port

/-- The watermarks after a history of calls. -/
def after (w : Watermarks) (calls : List Call) : Watermarks :=
  calls.foldl (fun w c => (w.take c).1) w

/-- The highest barrier of a port. -/
def highest (calls : List Call) (port : Nat) : WithBot Instant :=
  (calls.filterMap (Call.barrierAt? port)).maximum

/-- The ports that have not closed. -/
def openPorts (ports : Nat) (calls : List Call) : Finset Nat :=
  (Finset.range ports).filter fun port => .close port ∉ calls

/-- The least of the highest barriers of the open ports; the highest of all when none is open. -/
def lowWatermark (ports : Nat) (calls : List Call) : WithBot Instant :=
  if h : (openPorts ports calls).Nonempty then (openPorts ports calls).inf' h (highest calls)
  else (Finset.range ports).sup (highest calls)

variable {ports port : Nat} {calls : List Call} {call : Call} {w : Watermarks}

theorem mem_openPorts : port ∈ openPorts ports calls ↔ port < ports ∧ .close port ∉ calls := by
  rw [openPorts, Finset.mem_filter, Finset.mem_range]

/-! ## Histories that go on -/

theorem highest_concat (calls : List Call) (call : Call) (port : Nat) :
    highest (calls ++ [call]) port =
      max (highest calls port) (call.barrierAt? port).toList.maximum := by
  rw [highest, List.filterMap_append, List.maximum_append, ← highest]
  cases h : call.barrierAt? port <;> simp [h]

theorem highest_le_concat (calls : List Call) (call : Call) (port : Nat) :
    highest calls port ≤ highest (calls ++ [call]) port := by
  rw [highest_concat]
  exact le_max_left _ _

theorem openPorts_concat_subset (ports : Nat) (calls : List Call) (call : Call) :
    openPorts ports (calls ++ [call]) ⊆ openPorts ports calls := by
  intro port hport
  rw [mem_openPorts] at hport ⊢
  exact ⟨hport.1, fun hclose => hport.2 (List.mem_append_left _ hclose)⟩

/-- The low watermark only grows: marks go up, and a port that closes holds nothing back. -/
theorem lowWatermark_le_concat (ports : Nat) (calls : List Call) (call : Call) :
    lowWatermark ports calls ≤ lowWatermark ports (calls ++ [call]) := by
  have hmarks := highest_le_concat calls call
  have hopen := openPorts_concat_subset ports calls call
  rw [lowWatermark, lowWatermark]
  by_cases hafter : (openPorts ports (calls ++ [call])).Nonempty
  · have hbefore := hafter.mono hopen
    rw [dif_pos hbefore, dif_pos hafter, Finset.le_inf'_iff]
    intro port hport
    exact le_trans (Finset.inf'_le _ (hopen hport)) (hmarks port)
  · rw [dif_neg hafter]
    by_cases hbefore : (openPorts ports calls).Nonempty
    · -- the call closes the last port, whose mark was the lowest one
      obtain ⟨port, hport⟩ := hbefore
      rw [dif_pos ⟨port, hport⟩]
      calc (openPorts ports calls).inf' ⟨port, hport⟩ (highest calls)
          ≤ highest calls port := Finset.inf'_le _ hport
        _ ≤ highest (calls ++ [call]) port := hmarks port
        _ ≤ (Finset.range ports).sup (highest (calls ++ [call])) :=
          Finset.le_sup (Finset.mem_of_mem_filter port hport)
    · rw [dif_neg hbefore]
      exact Finset.sup_mono_fun fun port _ => hmarks port

theorem lowWatermark_nil (ports : Nat) : lowWatermark ports [] = ⊥ := by
  rw [lowWatermark]
  split
  · rename_i hopen
    obtain ⟨port, hport⟩ := hopen
    exact le_bot_iff.1 (Finset.inf'_le (highest []) hport)
  · exact (Finset.sup_eq_bot_iff _ _).2 fun port _ => rfl

/-- The low watermark is told by the highest barrier of every port and by the ports that closed. -/
theorem lowWatermark_congr {others : List Call}
    (hmarks : ∀ port < ports, highest others port = highest calls port)
    (hclosed : ∀ port < ports, .close port ∈ others ↔ .close port ∈ calls) :
    lowWatermark ports others = lowWatermark ports calls := by
  have hopen : openPorts ports others = openPorts ports calls := by
    ext port
    rw [mem_openPorts, mem_openPorts]
    exact and_congr_right fun hport => not_congr (hclosed port hport)
  simp only [lowWatermark, hopen]
  split
  · exact Finset.inf'_congr _ rfl fun port hport => hmarks port (mem_openPorts.1 hport).1
  · exact Finset.sup_congr rfl fun port hport => hmarks port (Finset.mem_range.1 hport)

/-! ## The mark of all ports together -/

theorem height_injective : Function.Injective height := by
  intro mark mark' heq
  cases mark with
  | none =>
    cases mark' with
    | none => rfl
    | some t => exact absurd heq.symm (WithBot.coe_ne_bot)
  | some t =>
    cases mark' with
    | none => exact absurd heq (WithBot.coe_ne_bot)
    | some t' => rw [WithBot.coe_injective heq]

theorem height_max (m t : Instant) :
    height (some (max m t)) = max (height (some m)) (height (some t)) :=
  WithBot.coe_max m t

/-- One mark that is missing makes the least mark missing. -/
theorem height_least?_cons {mark : Option Instant} {rest : List (Option Instant)} (h : rest ≠ []) :
    height (least? (mark :: rest)) = min (height mark) (height (least? rest)) := by
  obtain ⟨next, rest, rfl⟩ := List.exists_cons_of_ne_nil h
  rw [least?]
  · generalize least? (next :: rest) = low
    cases mark with
    | none => exact (min_eq_left bot_le).symm
    | some m =>
      cases low with
      | none => exact (min_eq_right bot_le).symm
      | some l => exact WithBot.coe_min m l
  · exact List.cons_ne_nil next rest

theorem le_height_least?_iff {marks : List (Option Instant)} (h : marks ≠ [])
    {t : WithBot Instant} : t ≤ height (least? marks) ↔ ∀ mark ∈ marks, t ≤ height mark := by
  induction marks with
  | nil => exact absurd rfl h
  | cons mark rest ih =>
    by_cases hrest : rest = []
    · subst hrest
      rw [List.forall_mem_singleton]
      rfl
    · rw [height_least?_cons hrest, le_min_iff, ih hrest, List.forall_mem_cons]

/-- Marks that are missing do not count for the greatest mark. -/
theorem height_greatest?_le_iff {marks : List (Option Instant)} {t : WithBot Instant} :
    height (greatest? marks) ≤ t ↔ ∀ mark ∈ marks, height mark ≤ t := by
  rw [greatest?]
  induction marks with
  | nil => exact iff_of_true bot_le nofun
  | cons mark rest ih =>
    rw [List.forall_mem_cons, ← ih]
    cases mark with
    | none => exact (and_iff_right bot_le).symm
    | some m =>
      rw [List.reduceOption_cons_of_some, List.max?_cons]
      cases hmax : rest.reduceOption.max? with
      | none => exact (and_iff_left bot_le).symm
      | some m' =>
        show height (some (max m m')) ≤ t ↔ _
        rw [height_max, max_le_iff]

/-! ## Ports after a history -/

/-- Every port has the highest barrier that the history gave it, and is open unless it closed. -/
structure Tracks (ports : Nat) (calls : List Call) (w : Watermarks) : Prop where
  length : w.ports.length = ports
  port : ∀ p (h : p < w.ports.length), height w.ports[p].mark = highest calls p ∧
    (w.ports[p].isOpen = true ↔ .close p ∉ calls)

theorem tracks_new (ports : Nat) : Tracks ports [] (new ports) := by
  refine ⟨List.length_replicate, fun p h => ?_⟩
  have hport : (new ports).ports[p] = ⟨none, true⟩ := List.getElem_replicate h
  rw [hport]
  exact ⟨rfl, iff_of_true rfl List.not_mem_nil⟩

theorem height_mark_observe (p : Port) (t : Instant) :
    height (Port.observe p t).mark = max (height p.mark) t := by
  rw [Port.observe]
  cases p.mark with
  | none => exact (max_eq_right bot_le).symm
  | some m => exact height_max m t

theorem Tracks.advance (h : Tracks ports calls w) : Tracks ports calls w.advance.1 := by
  refine ⟨by rw [ports_advance]; exact h.length, fun p hp => ?_⟩
  simp only [ports_advance] at hp ⊢
  exact h.port p hp

/-- A call changes the port that it is about as the history tells. -/
theorem Tracks.take (h : Tracks ports calls w) (call : Call) :
    Tracks ports (calls ++ [call]) (w.take call).1 := by
  cases call with
  | observe port t =>
    refine Tracks.advance ⟨by rw [List.length_modify]; exact h.length, fun p hp => ?_⟩
    rw [List.length_modify] at hp
    obtain ⟨hmark, hopen⟩ := h.port p hp
    rw [List.getElem_modify, highest_concat, List.mem_append, List.mem_singleton, ← hmark]
    by_cases hport : port = p
    · subst hport
      rw [if_pos rfl, height_mark_observe, Call.barrierAt?, if_pos rfl]
      exact ⟨rfl, by simpa [Port.observe] using hopen⟩
    · simp [hport, Call.barrierAt?, hopen]
  | close port =>
    refine Tracks.advance ⟨by rw [List.length_modify]; exact h.length, fun p hp => ?_⟩
    rw [List.length_modify] at hp
    obtain ⟨hmark, hopen⟩ := h.port p hp
    rw [List.getElem_modify, highest_concat, List.mem_append, List.mem_singleton, ← hmark]
    by_cases hport : port = p
    · subst hport
      simp [Call.barrierAt?]
    · simp [hport, Call.barrierAt?, hopen, Ne.symm hport]

theorem tracks_after (ports : Nat) (calls : List Call) :
    Tracks ports calls ((new ports).after calls) := by
  induction calls using List.reverseRecOn with
  | nil => exact tracks_new ports
  | append_singleton calls call ih =>
    rw [after, List.foldl_concat]
    exact ih.take call

theorem Tracks.mark_of_mem (h : Tracks ports calls w) {q : Port} (hq : q ∈ w.ports) :
    ∃ p < ports, height q.mark = highest calls p ∧ (q.isOpen = true ↔ .close p ∉ calls) := by
  obtain ⟨p, hp, rfl⟩ := List.mem_iff_getElem.1 hq
  exact ⟨p, h.length ▸ hp, h.port p hp⟩

theorem Tracks.exists_mem (h : Tracks ports calls w) (hport : port < ports) :
    ∃ q ∈ w.ports,
      height q.mark = highest calls port ∧ (q.isOpen = true ↔ .close port ∉ calls) := by
  have hlt : port < w.ports.length := h.length.symm ▸ hport
  exact ⟨w.ports[port], List.getElem_mem hlt, h.port port hlt⟩

/-- A bound is below the marks of the ports that are open exactly when it is below the highest
barriers of the ports that have not closed. -/
theorem Tracks.forall_opened_iff (h : Tracks ports calls w) (P : WithBot Instant → Prop) :
    (∀ mark ∈ (w.ports.filter (·.isOpen)).map (·.mark), P (height mark)) ↔
      ∀ port ∈ openPorts ports calls, P (highest calls port) := by
  simp only [List.forall_mem_map, List.mem_filter, mem_openPorts]
  constructor
  · rintro hall port ⟨hport, hclose⟩
    obtain ⟨q, hq, hmark, hopen⟩ := h.exists_mem hport
    exact hmark ▸ hall q ⟨hq, hopen.2 hclose⟩
  · rintro hall q ⟨hq, hqopen⟩
    obtain ⟨port, hport, hmark, hopen⟩ := h.mark_of_mem hq
    exact hmark ▸ hall port ⟨hport, hopen.1 hqopen⟩

theorem Tracks.forall_ports_iff (h : Tracks ports calls w) (P : WithBot Instant → Prop) :
    (∀ mark ∈ w.ports.map (·.mark), P (height mark)) ↔
      ∀ port ∈ Finset.range ports, P (highest calls port) := by
  simp only [List.forall_mem_map, Finset.mem_range]
  constructor
  · intro hall port hport
    obtain ⟨q, hq, hmark, -⟩ := h.exists_mem hport
    exact hmark ▸ hall q hq
  · intro hall q hq
    obtain ⟨port, hport, hmark, -⟩ := h.mark_of_mem hq
    exact hmark ▸ hall port hport

theorem Tracks.filter_isOpen_eq_nil_iff (h : Tracks ports calls w) :
    w.ports.filter (·.isOpen) = [] ↔ ¬ (openPorts ports calls).Nonempty := by
  rw [Finset.not_nonempty_iff_eq_empty, Finset.eq_empty_iff_forall_notMem, List.filter_eq_nil_iff]
  simp only [mem_openPorts]
  constructor
  · rintro hall port ⟨hport, hclose⟩
    obtain ⟨q, hq, -, hopen⟩ := h.exists_mem hport
    exact hall q hq (hopen.2 hclose)
  · intro hall q hq hqopen
    obtain ⟨port, hport, -, hopen⟩ := h.mark_of_mem hq
    exact hall port ⟨hport, hopen.1 hqopen⟩

/-- What all ports have together is the low watermark of the history. -/
theorem Tracks.combined (h : Tracks ports calls w) :
    height w.combined = lowWatermark ports calls := by
  rw [Watermarks.combined, lowWatermark]
  by_cases hopen : (openPorts ports calls).Nonempty
  · have hne : w.ports.filter (·.isOpen) ≠ [] := fun hnil =>
      h.filter_isOpen_eq_nil_iff.1 hnil hopen
    rw [dif_pos hopen, if_neg (by simpa using hne)]
    -- the least of some marks is the one that the same bounds are below
    apply eq_of_forall_le_iff
    intro t
    rw [le_height_least?_iff (by simpa using hne), Finset.le_inf'_iff]
    exact h.forall_opened_iff (t ≤ ·)
  · rw [dif_neg hopen, if_pos (by simpa using h.filter_isOpen_eq_nil_iff.2 hopen)]
    apply eq_of_forall_ge_iff
    intro t
    rw [height_greatest?_le_iff, Finset.sup_le_iff]
    exact h.forall_ports_iff (· ≤ t)

/-! ## What is given out -/

/-- The watermark grows when the ports have more together than was given out. -/
theorem advance_eq (w : Watermarks) : w.advance =
    if height w.emitted < height w.combined then ({ w with emitted := w.combined }, w.combined)
    else (w, none) := by
  rw [advance]
  cases hcombined : w.combined with
  | none => exact (if_neg not_lt_bot).symm
  | some t =>
    cases hemitted : w.emitted with
    | none => exact (if_pos (WithBot.bot_lt_coe t)).symm
    | some s =>
      have hlt : height (some s) < height (some t) ↔ s < t := WithBot.coe_lt_coe
      by_cases hst : s < t
      · rw [if_pos (hlt.2 hst)]
        exact if_pos (decide_eq_true hst)
      · rw [if_neg fun h => hst (hlt.1 h)]
        exact if_neg fun h => hst (of_decide_eq_true h)

/-- A call changes ports, and then gives out what has grown. -/
theorem exists_take_eq_advance (w : Watermarks) (call : Call) :
    ∃ w' : Watermarks, w'.emitted = w.emitted ∧ w.take call = w'.advance := by
  cases call with
  | observe port t =>
    exact ⟨{ w with ports := w.ports.modify port (Port.observe · t) }, rfl, rfl⟩
  | close port =>
    exact ⟨{ w with ports := w.ports.modify port ({ · with isOpen := false }) }, rfl, rfl⟩

theorem combined_advance (w : Watermarks) : w.advance.1.combined = w.combined := by
  rw [combined, combined, ports_advance]

/-- Where the low watermark was given out last, a call gives it out again exactly when it grows. -/
theorem Tracks.give (h : Tracks ports calls w)
    (hemitted : height w.emitted = lowWatermark ports calls) (call : Call) :
    height (w.take call).1.emitted = lowWatermark ports (calls ++ [call]) ∧
      ∀ m, (w.take call).2 = some m ↔
        lowWatermark ports calls < lowWatermark ports (calls ++ [call]) ∧
          lowWatermark ports (calls ++ [call]) = m := by
  obtain ⟨w', hbefore, htake⟩ := w.exists_take_eq_advance call
  have hcombined := (h.take call).combined
  rw [htake, combined_advance] at hcombined
  have hgrows := lowWatermark_le_concat ports calls call
  rw [htake, advance_eq, hbefore, hemitted, hcombined]
  by_cases hlt : lowWatermark ports calls < lowWatermark ports (calls ++ [call])
  · rw [if_pos hlt]
    refine ⟨hcombined, fun m => ?_⟩
    rw [and_iff_right hlt, ← hcombined]
    exact height_injective.eq_iff.symm
  · rw [if_neg hlt]
    refine ⟨?_, fun m => iff_of_false (Option.some_ne_none m).symm fun hm => hlt hm.1⟩
    rw [hbefore, hemitted]
    exact le_antisymm hgrows (not_lt.1 hlt)

theorem height_emitted_after (ports : Nat) (calls : List Call) :
    height ((new ports).after calls).emitted = lowWatermark ports calls := by
  -- the low watermark grows with the history, so the last one given out is never too high
  induction calls using List.reverseRecOn with
  | nil => exact (lowWatermark_nil ports).symm
  | append_singleton calls call ih =>
    rw [after, List.foldl_concat]
    exact ((tracks_after ports calls).give ih call).1

/-- After every history the low watermark of the history is the one that was given out last. It
never falls, a call gives out a watermark exactly when it grows, and which calls came first on
different ports makes no difference. -/
theorem after_gives_lowWatermark (ports : Nat) (calls : List Call) :
    height ((new ports).after calls).emitted = lowWatermark ports calls ∧
    (∀ call,
      lowWatermark ports calls ≤ lowWatermark ports (calls ++ [call]) ∧
      ∀ m, (((new ports).after calls).take call).2 = some m ↔
        lowWatermark ports calls < lowWatermark ports (calls ++ [call]) ∧
          lowWatermark ports (calls ++ [call]) = m) ∧
    ∀ others,
      (∀ port < ports, highest others port = highest calls port) →
      (∀ port < ports, .close port ∈ others ↔ .close port ∈ calls) →
      ((new ports).after others).emitted = ((new ports).after calls).emitted := by
  refine ⟨height_emitted_after ports calls, fun call => ⟨?_, ?_⟩, fun others hmarks hclosed => ?_⟩
  · exact lowWatermark_le_concat ports calls call
  · exact ((tracks_after ports calls).give (height_emitted_after ports calls) call).2
  · apply height_injective
    rw [height_emitted_after, height_emitted_after]
    exact lowWatermark_congr hmarks hclosed

/-- Two ports are told of in either order; when the one that lags closes, the mark of the other one
is given out. -/
theorem after_gives_lowWatermark_of_two :
    let calls : List Call := [.observe 0 ⟨20⟩, .observe 1 ⟨10⟩]
    let others : List Call := [.observe 1 ⟨10⟩, .observe 0 ⟨20⟩]
    ((new 2).after others).emitted = ((new 2).after calls).emitted ∧
      height ((new 2).after calls).emitted = (⟨10⟩ : Instant) ∧
      (((new 2).after calls).take (.close 1)).2 = some ⟨20⟩ := by
  intro calls others
  obtain ⟨hemitted, hgives, hsame⟩ := after_gives_lowWatermark 2 calls
  have hmarks : ∀ port < 2, highest others port = highest calls port := by decide +kernel
  have hclosed : ∀ port < 2, .close port ∈ others ↔ .close port ∈ calls := by decide
  have hlow : lowWatermark 2 calls = (⟨10⟩ : Instant) := by decide +kernel
  have hnext : lowWatermark 2 (calls ++ [.close 1]) = (⟨20⟩ : Instant) := by decide +kernel
  refine ⟨hsame others hmarks hclosed, hemitted.trans hlow, ((hgives (.close 1)).2 ⟨20⟩).2 ?_⟩
  rw [hlow, hnext]
  exact ⟨WithBot.coe_lt_coe.2 (by decide), rfl⟩

/-- A port without a barrier holds the others back until it closes; of the two that are left, the
lower mark counts, and when all have closed, the higher one. -/
example :
    ((new 3).after [.observe 0 ⟨20⟩, .observe 1 ⟨10⟩]).emitted = none ∧
    ((new 3).after [.observe 0 ⟨20⟩, .observe 1 ⟨10⟩, .close 2]).emitted = some ⟨10⟩ ∧
    ((new 3).after [.observe 0 ⟨20⟩, .observe 1 ⟨10⟩, .close 2, .close 0, .close 1]).emitted =
      some ⟨20⟩ := by
  decide

end SeriesPipeline.Watermarks
