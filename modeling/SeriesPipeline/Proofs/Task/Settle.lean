import SeriesPipeline.Proofs.Task.Progress

/-!
# Settled networks

Letting a network settle comes to single steps of its processes. Afterwards no process can make one,
so every process that is still there waits with an empty inbox, and takes what it is offered.
-/

namespace SeriesPipeline

namespace Network

variable {capacity fuel : Nat} {now : Instant} {r : Results} {p : Process}
  {processes rest : List Process}

/-- Steps of processes by their numbers, one after the other. -/
def steps? (capacity : Nat) (now : Instant) (s : Results × List Process) (ks : List Nat) :
    Option (Results × List Process) :=
  ks.foldlM (fun s k => stepAt capacity now k s.1 s.2) s

theorem steps?_append {s s' : Results × List Process} {ks : List Nat}
    (h : steps? capacity now s ks = some s') (later : List Nat) :
    steps? capacity now s (ks ++ later) = steps? capacity now s' later := by
  rw [steps?, List.foldlM_append]
  exact congrArg (· >>= fun s => steps? capacity now s later) h

/-- Steps of the rest leave the head as it is. -/
theorem steps?_cons {r' : Results} {rest' : List Process} {ks : List Nat} (p : Process)
    (h : steps? capacity now (r, rest) ks = some (r', rest')) :
    steps? capacity now (r, p :: rest) (ks.map (· + 1)) = some (r', p :: rest') := by
  induction ks generalizing r rest with
  | nil =>
    cases h
    rfl
  | cons k ks ih =>
    rw [steps?, List.foldlM_cons] at h
    obtain ⟨⟨r'', rest''⟩, hstep, hrest⟩ := Option.bind_eq_some_iff.1 h
    rw [List.map_cons, steps?, List.foldlM_cons, stepAt, hstep]
    exact ih hrest

/-- Some processes have come from others by steps, and can make no more. -/
structure Settles (capacity : Nat) (now : Instant) (s s' : Results × List Process) : Prop where
  steps : ∃ ks, steps? capacity now s ks = some s'
  stuck : ∀ k, stepAt capacity now k s'.1 s'.2 = none
  length : s'.2.length = s.2.length

theorem stepAt_nil (k : Nat) : stepAt capacity now k r [] = none := by
  cases k <;> rfl

theorem length_stepHead {r' : Results} {p' : Process} {rest' : List Process}
    (h : stepHead capacity now r p rest = some (r', p', rest')) : rest'.length = rest.length := by
  rw [stepHead] at h
  split at h
  · obtain ⟨⟨r'', p''⟩, -, heq⟩ := Option.map_eq_some_iff.1 h
    cases heq
    rfl
  · split at h
    · rename_i hoffer
      cases h
      obtain ⟨q, -, -, rfl⟩ := of_offerTo_eq_taken hoffer
      exact List.length_set
    · cases h
      rfl
    · cases h

/-- The head makes its steps, with the rest settled before each. -/
theorem settles_settleHead {settleRest : Results → List Process → Results × List Process}
    (hrest : ∀ r processes, processes.length ≤ fuel →
      Settles capacity now (r, processes) (settleRest r processes))
    (r : Results) (p : Process) (rest : List Process) (hlength : rest.length ≤ fuel) :
    Settles capacity now (r, p :: rest) (settleHead settleRest capacity now r p rest) := by
  induction r, p, rest using settleHead.induct settleRest capacity now with
  | case1 r p rest settled hnone =>
    obtain ⟨⟨ks, hks⟩, hstuck, hsettled⟩ := hrest r rest hlength
    rw [settleHead, show stepHead capacity now (settleRest r rest).1 p (settleRest r rest).2 = none
      from hnone]
    refine ⟨⟨ks.map (· + 1), steps?_cons p hks⟩, fun k => ?_, congrArg (· + 1) hsettled⟩
    cases k with
    | zero => exact congrArg (Option.map _) hnone
    | succ k => exact congrArg (Option.map _) (hstuck k)
  | case2 r p rest settled r' p' rest' hsome ih =>
    obtain ⟨⟨ks, hks⟩, hstuck, hsettled⟩ := hrest r rest hlength
    have hlength' : rest'.length = rest.length := (length_stepHead hsome).trans hsettled
    obtain ⟨⟨ks', hks'⟩, hstuck', hsettled'⟩ := ih (hlength'.trans_le hlength)
    have hhead : steps? capacity now (settled.1, p :: settled.2) [0] = some (r', p' :: rest') := by
      rw [steps?, List.foldlM_cons, stepAt, hsome]
      rfl
    rw [settleHead, show stepHead capacity now (settleRest r rest).1 p (settleRest r rest).2 =
      some (r', p', rest') from hsome]
    -- the rest settles, the head makes one step, and both settle after that
    refine ⟨⟨ks.map (· + 1) ++ ([0] ++ ks'), ?_⟩, hstuck', ?_⟩
    · rw [steps?_append (steps?_cons p hks), steps?_append hhead]
      exact hks'
    · exact hsettled'.trans (congrArg (· + 1) hlength')

theorem settles_settleFirst (capacity : Nat) (now : Instant) (fuel : Nat) (r : Results)
    (processes : List Process) (hlength : processes.length ≤ fuel) :
    Settles capacity now (r, processes) (settleFirst capacity now fuel r processes) := by
  induction fuel generalizing r processes with
  | zero =>
    obtain rfl := List.length_eq_zero_iff.1 (Nat.le_zero.1 hlength)
    exact ⟨⟨[], rfl⟩, stepAt_nil, rfl⟩
  | succ fuel ih =>
    cases processes with
    | nil => exact ⟨⟨[], rfl⟩, stepAt_nil, rfl⟩
    | cons p rest => exact settles_settleHead ih r p rest (Nat.le_of_succ_le_succ hlength)

/-! ## Whole networks -/

theorem of_steps? {n : Network} {s : Results × List Process} {ks : List Nat}
    (h : steps? n.capacity now (n.results, n.processes) ks = some s) :
    ks.foldlM (step? now) n = some { n with results := s.1, processes := s.2 } := by
  induction ks generalizing n with
  | nil =>
    cases h
    rfl
  | cons k ks ih =>
    rw [steps?, List.foldlM_cons] at h
    obtain ⟨⟨r', processes'⟩, hstep, hrest⟩ := Option.bind_eq_some_iff.1 h
    rw [List.foldlM_cons, step?, hstep]
    exact ih (n := { n with results := r', processes := processes' }) hrest

/-- A network settles by steps of its processes, until none can make one. -/
theorem settle_eq (now : Instant) (n : Network) :
    (∃ ks : List Nat, ks.foldlM (step? now) n = some (n.settle now)) ∧
      ∀ k, (n.settle now).step? now k = none := by
  obtain ⟨⟨ks, hks⟩, hstuck, -⟩ :=
    settles_settleFirst n.capacity now n.processes.length n.results n.processes (le_refl _)
  exact ⟨⟨ks, of_steps? hks⟩, fun k => congrArg (Option.map _) (hstuck k)⟩

/-- Processes that are still there have nothing in their inboxes. -/
def IsIdle (n : Network) : Prop := ∀ p ∈ n.processes, p.phase.isOpen = true → p.inbox = []

variable {n : Network}

theorem isIdle_settle (hcapacity : 1 ≤ n.capacity) (now : Instant) : (n.settle now).IsIdle := by
  intro p hp hopen
  obtain ⟨i, hi⟩ := List.mem_iff_getElem?.1 hp
  exact ((waits_of_stuck (n := n.settle now) hcapacity (settle_eq now n).2 hi).2 hopen).2

/-- Aborted processes are gone. -/
theorem IsIdle.abort (h : n.IsIdle) : n.abort.IsIdle := by
  intro p' hp' hopen
  obtain ⟨p, hp, rfl⟩ := List.mem_map.1 hp'
  rw [Process.abort] at hopen ⊢
  split
  · rename_i hexited
    rw [if_pos hexited] at hopen
    exact h p hp hopen
  · rfl

/-- An idle process takes what it is offered. -/
theorem IsIdle.offer_ne_full (h : n.IsIdle) (hcapacity : 1 ≤ n.capacity) (i : Nat) (e : Envelope) :
    n.offer i e ≠ .full := by
  intro hfull
  rw [offer] at hfull
  cases hoffer : offerTo n.capacity n.processes i e with
  | taken processes =>
    rw [hoffer] at hfull
    cases hfull
  | gone =>
    rw [hoffer] at hfull
    cases hfull
  | full =>
    obtain ⟨p, hp, hopen, hlength⟩ := of_offerTo_eq_full hoffer
    rw [h p (List.mem_of_getElem? hp) hopen] at hlength
    exact Nat.not_succ_le_zero 0 (hcapacity.trans hlength)

end Network

end SeriesPipeline
