import SeriesPipeline.Proofs.Task.Histories

/-!
# Progress of networks

A process that has something to send can send it, or waits for a later process whose inbox is full.
So where something is left to send, some process can make a step. Only an abort aborts, and it ends
all processes at once.
-/

namespace SeriesPipeline

namespace Network

variable {capacity i : Nat} {now : Instant} {n n' : Network} {p : Process}

/-- An envelope waits for an open inbox that is full. -/
theorem of_offerTo_eq_full {processes : List Process} {e : Envelope}
    (h : offerTo capacity processes i e = .full) :
    ∃ p, processes[i]? = some p ∧ p.phase.isOpen = true ∧ capacity ≤ p.inbox.length := by
  rw [offerTo] at h
  cases hp : processes[i]? with
  | none =>
    rw [hp] at h
    cases h
  | some p =>
    rw [hp] at h
    dsimp only [Process.offer] at h
    split at h
    · rename_i hopen
      split at h
      · cases h
      · rename_i hfull
        exact ⟨p, rfl, hopen, Nat.le_of_not_lt hfull⟩
    · cases h

/-- What a step comes to, with the processes before as they were. -/
theorem step?_eq (now : Instant) (n : Network) (i : Nat) :
    n.step? now i = n.processes[i]?.bind fun p =>
      (stepHead n.capacity now n.results p (n.processes.drop (i + 1))).map fun (results, p, rest) =>
        { n with results, processes := n.processes.take i ++ p :: rest } := by
  rw [step?, stepAt_eq]
  cases n.processes[i]? with
  | none => rfl
  | some p => exact Option.map_map ..

theorem isSome_step? (hp : n.processes[i]? = some p)
    (h : (stepHead n.capacity now n.results p (n.processes.drop (i + 1))).isSome) :
    (n.step? now i).isSome := by
  rw [step?_eq, hp]
  exact Option.isSome_map.trans h

/-- A process that makes a step sends or takes something, or is on its way out. -/
theorem exists_process_of_isSome_step? (h : (n.step? now i).isSome) :
    ∃ p, n.processes[i]? = some p ∧ (p.events now i ≠ [] ∨
      p.outbox = [] ∧ p.phase.isOpen = true ∧ p.phase ≠ .running) := by
  obtain ⟨n', hn'⟩ := Option.isSome_iff_exists.1 h
  rw [step?_eq] at hn'
  obtain ⟨p, hp, hn'⟩ := Option.bind_eq_some_iff.1 hn'
  obtain ⟨_, hhead, -⟩ := Option.map_eq_some_iff.1 hn'
  refine ⟨p, hp, ?_⟩
  replace h := Option.isSome_of_eq_some hhead
  rw [stepHead] at h
  rw [Process.events]
  cases hout : p.outbox with
  | cons sending outbox => exact .inl (List.cons_ne_nil _ _)
  | nil =>
    rw [hout] at h
    dsimp only at h
    rw [Option.isSome_map, turn] at h
    cases hphase : p.phase with
    | running =>
      cases hin : p.inbox with
      | nil =>
        rw [hphase, hin] at h
        cases h
      | cons e inbox => exact .inl (List.cons_ne_nil _ _)
    | failed cause => exact .inr ⟨rfl, rfl, by rintro ⟨⟩⟩
    | leaving failure => exact .inr ⟨rfl, rfl, by rintro ⟨⟩⟩
    | closed failure =>
      rw [hphase] at h
      cases h
    | aborted =>
      rw [hphase] at h
      cases h

/-- A process that has nothing to send makes a step, unless it waits for something or has exited. -/
theorem isSome_step?_of_outbox_eq_nil (hp : n.processes[i]? = some p) (hout : p.outbox = [])
    (hopen : p.phase.isOpen = true) (hwaits : p.phase = .running → p.inbox ≠ []) :
    (n.step? now i).isSome := by
  refine isSome_step? hp ?_
  rw [stepHead, hout, Option.isSome_map, turn]
  cases hphase : p.phase with
  | running =>
    obtain ⟨e, inbox, hin⟩ := List.exists_cons_of_ne_nil (hwaits hphase)
    rw [hin]
    rfl
  | failed cause => rfl
  | leaving failure => rfl
  | closed failure =>
    rw [hphase] at hopen
    cases hopen
  | aborted =>
    rw [hphase] at hopen
    cases hopen

/-- What a process has to send can be sent, or waits for a later process, whose inbox is full. -/
theorem isSome_step?_or_waits (now : Instant) (hp : n.processes[i]? = some p)
    (hout : p.outbox ≠ []) :
    (n.step? now i).isSome ∨ ∃ k q, i < k ∧ n.processes[k]? = some q ∧ q.phase.isOpen = true ∧
      n.capacity ≤ q.inbox.length := by
  obtain ⟨⟨outlet, m⟩, outbox, hcons⟩ := List.exists_cons_of_ne_nil hout
  cases hoffer : offerTo n.capacity (n.processes.drop (i + 1)) outlet.between ⟨outlet.port, m⟩ with
  | taken rest =>
    exact .inl (isSome_step? hp (by rw [stepHead, hcons]; dsimp only; rw [hoffer]; rfl))
  | gone => exact .inl (isSome_step? hp (by rw [stepHead, hcons]; dsimp only; rw [hoffer]; rfl))
  | full =>
    obtain ⟨q, hq, hopen, hfull⟩ := of_offerTo_eq_full hoffer
    rw [List.getElem?_drop] at hq
    exact .inr ⟨_, q, by omega, hq, hopen, hfull⟩

/-- Where something is left to send, some process can make a step. The inboxes that are waited for
are of later and later processes, so the last of them is not waited for in vain. -/
theorem exists_step?_of_outbox_ne_nil (now : Instant) (hcapacity : 1 ≤ n.capacity)
    (hp : n.processes[i]? = some p) (hout : p.outbox ≠ []) : ∃ k, (n.step? now k).isSome := by
  have hlt := (List.getElem?_eq_some_iff.1 hp).1
  -- induction on how many processes come after this one
  induction hleft : n.processes.length - i using Nat.strong_induction_on generalizing i p with
  | _ left ih =>
    obtain hstep | ⟨k, q, hk, hq, hopen, hfull⟩ := isSome_step?_or_waits now hp hout
    · exact ⟨i, hstep⟩
    · have hklt := (List.getElem?_eq_some_iff.1 hq).1
      by_cases hqout : q.outbox = []
      · refine ⟨k, isSome_step?_of_outbox_eq_nil hq hqout hopen fun _ hin => ?_⟩
        rw [hin, List.length_nil] at hfull
        omega
      · exact ih _ (by omega) hq hqout hklt rfl

/-- Where no process can make a step, those that have not closed wait for something to arrive. -/
theorem waits_of_stuck (hcapacity : 1 ≤ n.capacity) (hstuck : ∀ k, n.step? now k = none)
    (hp : n.processes[i]? = some p) :
    p.outbox = [] ∧ (p.phase.isOpen = true → p.phase = .running ∧ p.inbox = []) := by
  have hnot (k : Nat) : ¬(n.step? now k).isSome := by
    rw [hstuck k]
    nofun
  have hout : p.outbox = [] := by
    by_contra hout
    obtain ⟨k, hk⟩ := exists_step?_of_outbox_ne_nil now hcapacity hp hout
    exact hnot k hk
  refine ⟨hout, fun hopen => ?_⟩
  by_contra hwaits
  exact hnot i (isSome_step?_of_outbox_eq_nil hp hout hopen fun hrunning hin =>
    hwaits ⟨hrunning, hin⟩)

/-! ## Aborts -/

theorem phase_ne_aborted_of_turn {r r' : Results} {p' : Process}
    (h : turn now r p = some (r', p')) : p'.phase ≠ .aborted := by
  rw [turn] at h
  split at h
  · split at h
    · cases h
    · rename_i e inbox hin
      cases h
      intro (haborted : phaseAfter (p.stage.receive now e).2.2 = .aborted)
      have hopen := Process.isOpen_phaseAfter (p.stage.receive now e).2.2
      rw [haborted] at hopen
      cases hopen
  · cases h
    rintro ⟨⟩
  · cases h
    rintro ⟨⟩
  · cases h
  · cases h

/-- Whether some process was aborted. -/
def HasAborted (processes : List Process) : Prop := ∃ p ∈ processes, p.phase = .aborted

theorem hasAborted_of_offerTo {processes processes' : List Process} {e : Envelope}
    (h : offerTo capacity processes i e = .taken processes') (haborted : HasAborted processes') :
    HasAborted processes := by
  obtain ⟨p, hp, -, rfl⟩ := of_offerTo_eq_taken h
  obtain ⟨q, hq, hphase⟩ := haborted
  rcases List.mem_or_eq_of_mem_set hq with hq | rfl
  · exact ⟨q, hq, hphase⟩
  · exact ⟨p, List.mem_of_getElem? hp, hphase⟩

theorem hasAborted_of_stepHead {r r' : Results} {p' : Process} {rest rest' : List Process}
    (h : stepHead capacity now r p rest = some (r', p', rest'))
    (haborted : HasAborted (p' :: rest')) : HasAborted (p :: rest) := by
  rw [stepHead] at h
  split at h
  · obtain ⟨⟨r'', p''⟩, hturn, heq⟩ := Option.map_eq_some_iff.1 h
    cases heq
    obtain ⟨q, hq, hphase⟩ := haborted
    rcases List.mem_cons.1 hq with rfl | hq
    · exact absurd hphase (phase_ne_aborted_of_turn hturn)
    · exact ⟨q, List.mem_cons_of_mem _ hq, hphase⟩
  · split at h
    · rename_i hoffer
      cases h
      obtain ⟨q, hq, hphase⟩ := haborted
      rcases List.mem_cons.1 hq with rfl | hq
      · exact ⟨p, List.mem_cons_self, hphase⟩
      · obtain ⟨q', hq', hphase'⟩ := hasAborted_of_offerTo hoffer ⟨q, hq, hphase⟩
        exact ⟨q', List.mem_cons_of_mem _ hq', hphase'⟩
    · cases h
      obtain ⟨q, hq, hphase⟩ := haborted
      rcases List.mem_cons.1 hq with rfl | hq
      · exact ⟨p, List.mem_cons_self, hphase⟩
      · exact ⟨q, List.mem_cons_of_mem _ hq, hphase⟩
    · cases h

/-- Handing over a message changes no capacity and aborts no process. -/
theorem of_offer_eq_taken {e : Envelope} (h : n.offer i e = .taken n') :
    n'.capacity = n.capacity ∧ (HasAborted n'.processes → HasAborted n.processes) := by
  rw [offer] at h
  cases hoffer : offerTo n.capacity n.processes i e with
  | taken processes =>
    rw [hoffer] at h
    cases h
    exact ⟨rfl, hasAborted_of_offerTo hoffer⟩
  | full =>
    rw [hoffer] at h
    cases h
  | gone =>
    rw [hoffer] at h
    cases h

/-- Neither does a step. -/
theorem of_step?_eq_some (h : n.step? now i = some n') :
    n'.capacity = n.capacity ∧ (HasAborted n'.processes → HasAborted n.processes) := by
  rw [step?_eq] at h
  obtain ⟨p, hp, h⟩ := Option.bind_eq_some_iff.1 h
  obtain ⟨⟨r, p', rest⟩, hhead, rfl⟩ := Option.map_eq_some_iff.1 h
  refine ⟨rfl, fun ⟨q, hq, hphase⟩ => ?_⟩
  rcases List.mem_append.1 hq with hq | hq
  · exact ⟨q, List.mem_of_mem_take hq, hphase⟩
  · obtain ⟨q', hq', hphase'⟩ := hasAborted_of_stepHead hhead ⟨q, hq, hphase⟩
    rcases List.mem_cons.1 hq' with rfl | hq'
    · exact ⟨q', List.mem_of_getElem? hp, hphase'⟩
    · exact ⟨q', List.mem_of_mem_drop hq', hphase'⟩

end Network

theorem Process.Changes.hasExited {incidents : List Incident} {p p' : Process}
    (h : Changes incidents p p') (hexited : p.hasExited = true) : p'.hasExited = true := by
  cases h with
  | idle => exact hexited
  | accepts e hopen =>
    rw [Process.hasExited] at hexited
    split at hexited
    · rename_i hphase
      rw [hphase] at hopen
      cases hopen
    · rename_i hphase
      rw [hphase] at hopen
      cases hopen
    · cases hexited
  | misses => exact hexited
  | sends hout =>
    rw [Process.hasExited] at hexited ⊢
    dsimp only
    split at hexited
    · rw [hout] at hexited
      cases hexited
    · rfl
    · cases hexited
  | takes now hout hphase hin =>
    rw [Process.hasExited, hphase] at hexited
    cases hexited
  | records hphase =>
    rw [Process.hasExited, hphase] at hexited
    cases hexited
  | leaves hout hphase =>
    rw [Process.hasExited, hphase] at hexited
    cases hexited
  | aborts =>
    rw [Process.abort, if_pos hexited]
    exact hexited

/-! ## Executions -/

namespace Execution

variable {x x' : Execution} {events : List Event} {move : Move} {moves : List Move}

theorem Makes.hasExited (h : x.Makes events x') (hexited : x.network.hasExited = true) :
    x'.network.hasExited = true := by
  refine List.all_eq_true.2 fun p' hp' => ?_
  obtain ⟨k, hk⟩ := List.mem_iff_getElem?.1 hp'
  have hrel := h.processes k
  rw [hk] at hrel
  cases hp : x.network.processes[k]? with
  | none =>
    rw [hp] at hrel
    cases hrel
  | some p =>
    rw [hp] at hrel
    cases hrel with
    | some hchanges =>
      exact hchanges.hasExited (List.all_eq_true.1 hexited p (List.mem_of_getElem? hp))

/-- The capacity stays, and after an abort every process has exited. -/
structure Lasting (capacity : Nat) (x : Execution) : Prop where
  capacity : x.network.capacity = capacity
  aborted : Network.HasAborted x.network.processes → x.network.hasExited = true

theorem hasExited_abort (p : Process) : p.abort.hasExited = true := by
  rw [Process.abort]
  split
  · assumption
  · rfl

theorem Lasting.of_move? {capacity : Nat} (h : x.Lasting capacity)
    (hmove : x.move? move = some x') : x'.Lasting capacity := by
  obtain ⟨events, hmakes⟩ := makes_of_move? hmove
  cases move with
  | feed i =>
    rw [move?] at hmove
    split at hmove
    · cases hmove
    · split at hmove
      · rename_i hoffer
        cases hmove
        obtain ⟨hcapacity, haborted⟩ := Network.of_offer_eq_taken hoffer
        exact ⟨hcapacity.trans h.capacity, fun hnew => hmakes.hasExited (h.aborted (haborted hnew))⟩
      · cases hmove
        exact ⟨h.capacity, h.aborted⟩
      · cases hmove
  | step i now =>
    obtain ⟨p, -, hmove⟩ := Option.bind_eq_some_iff.1 hmove
    obtain ⟨n, hn, hmove⟩ := Option.bind_eq_some_iff.1 hmove
    cases hmove
    obtain ⟨hcapacity, haborted⟩ := Network.of_step?_eq_some hn
    exact ⟨hcapacity.trans h.capacity, fun hnew => hmakes.hasExited (h.aborted (haborted hnew))⟩
  | abort =>
    cases hmove
    refine ⟨h.capacity, fun _ => List.all_eq_true.2 fun p' hp' => ?_⟩
    obtain ⟨p, -, rfl⟩ := List.mem_map.1 hp'
    exact hasExited_abort p

theorem Lasting.run {capacity : Nat} (h : x.Lasting capacity) (hrun : x.run moves = some x') :
    x'.Lasting capacity := by
  induction moves generalizing x with
  | nil =>
    cases hrun
    exact h
  | cons move rest ih =>
    rw [Execution.run, List.foldlM_cons] at hrun
    obtain ⟨y, hmove, hrest⟩ := Option.bind_eq_some_iff.1 hrun
    exact ih (h.of_move? hmove) hrest

end Execution

end SeriesPipeline
