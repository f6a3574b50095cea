import SeriesPipeline.Task.Process

/-!
# Networks

A network is a list of processes in which every process sends to later ones only. Processes take
turns in any order. Each step of a process delivers one message, takes one envelope, or moves on to
its next phase.
-/

namespace SeriesPipeline

structure Network where
  /-- How many envelopes an inbox holds. -/
  capacity : Nat
  processes : List Process
  results : Results

namespace Network

/-- Hands a message to a process. -/
def offerTo (capacity : Nat) (processes : List Process) (i : Nat) (e : Envelope) :
    Offer (List Process) :=
  match processes[i]? with
  | some p => (p.offer capacity e).map (processes.set i)
  | none => .gone

/-- The phase that follows from what the stage made of an envelope. -/
def phaseAfter : Progress → Phase
  | .running => .running
  | .finished => .leaving none
  | .failed cause => .failed cause

/-- What a process with an empty outbox does next, if anything. -/
def turn (now : Instant) (r : Results) (p : Process) : Option (Results × Process) :=
  match p.phase with
  | .running =>
    match p.inbox with
    | [] => none
    | e :: inbox =>
      let (stage, reaction, progress) := p.stage.receive now e
      some (r.add reaction,
        { p with stage, inbox, outbox := p.broadcast reaction.sent, phase := phaseAfter progress })
  | .failed cause => some (r.record cause, { p with phase := .leaving (some cause) })
  | .leaving failure =>
    some (r, { p with inbox := [], outbox := p.broadcast [.close], phase := .closed failure })
  | .closed _ | .aborted => none

/-- One step of a process with the processes after it. -/
def stepHead (capacity : Nat) (now : Instant) (r : Results) (p : Process) (rest : List Process) :
    Option (Results × Process × List Process) :=
  match p.outbox with
  | [] => (turn now r p).map fun (r, p) => (r, p, rest)
  | (outlet, message) :: outbox =>
    match offerTo capacity rest outlet.between ⟨outlet.port, message⟩ with
    | .taken rest => some (r, { p with outbox }, rest)
    | .gone => some (r, { p with outbox }, rest)
    | .full => none

def stepAt (capacity : Nat) (now : Instant) :
    Nat → Results → List Process → Option (Results × List Process)
  | _, _, [] => none
  | 0, r, p :: rest => (stepHead capacity now r p rest).map fun (r, p, rest) => (r, p :: rest)
  | i + 1, r, p :: rest => (stepAt capacity now i r rest).map fun (r, rest) => (r, p :: rest)

/-- One step of process number `i`, if it has one to make. -/
def step? (now : Instant) (n : Network) (i : Nat) : Option Network :=
  (stepAt n.capacity now i n.results n.processes).map fun (results, processes) =>
    { n with results, processes }

def offer (n : Network) (i : Nat) (e : Envelope) : Offer Network :=
  (offerTo n.capacity n.processes i e).map fun processes => { n with processes }

def hasExited (n : Network) : Bool := n.processes.all (·.hasExited)

def abort (n : Network) : Network := { n with processes := n.processes.map (·.abort) }

/-- Whether some process has exited with a fatal failure. -/
def isDoomed (n : Network) : Bool := n.processes.any fun p => p.exitFailure?.any (·.isFatal)

/-- What bounds the steps that a process makes by itself: phases first, then envelopes, then
messages. -/
def work (p : Process) : Nat × Nat × Nat := (p.phase.left, p.inbox.length, p.outbox.length)

/-- Less work than before. -/
abbrev LessWork : Nat × Nat × Nat → Nat × Nat × Nat → Prop :=
  Prod.Lex (· < ·) (Prod.Lex (· < ·) (· < ·))

theorem left_phaseAfter (progress : Progress) :
    phaseAfter progress = .running ∨ (phaseAfter progress).left < Phase.running.left := by
  cases progress <;> simp [phaseAfter, Phase.left]

theorem lessWork_turn {now : Instant} {r r' : Results} {p p' : Process}
    (h : turn now r p = some (r', p')) : LessWork (work p') (work p) := by
  unfold turn at h
  split at h
  · rename_i hphase
    split at h
    · simp at h
    · rename_i e inbox hinbox
      simp only [Option.some.injEq, Prod.mk.injEq] at h
      obtain ⟨-, rfl⟩ := h
      simp only [work, hphase, hinbox]
      rcases left_phaseAfter (p.stage.receive now e).2.2 with hrun | hless
      · rw [hrun]
        exact .right _ (.left _ _ (by simp))
      · exact .left _ _ hless
  · rename_i hphase
    simp only [Option.some.injEq, Prod.mk.injEq] at h
    obtain ⟨-, rfl⟩ := h
    exact .left _ _ (by simp [hphase, Phase.left])
  · rename_i hphase
    simp only [Option.some.injEq, Prod.mk.injEq] at h
    obtain ⟨-, rfl⟩ := h
    exact .left _ _ (by simp [hphase, Phase.left])
  · simp at h
  · simp at h

theorem lessWork_stepHead {capacity : Nat} {now : Instant} {r r' : Results} {p p' : Process}
    {rest rest' : List Process} (h : stepHead capacity now r p rest = some (r', p', rest')) :
    LessWork (work p') (work p) := by
  unfold stepHead at h
  split at h
  · simp only [Option.map_eq_some_iff, Prod.mk.injEq] at h
    obtain ⟨⟨s, q⟩, hturn, rfl, rfl, -⟩ := h
    exact lessWork_turn hturn
  · rename_i hout
    split at h
    · simp only [Option.some.injEq, Prod.mk.injEq] at h
      obtain ⟨-, rfl, -⟩ := h
      exact .right _ (.right _ (by simp [hout]))
    · simp only [Option.some.injEq, Prod.mk.injEq] at h
      obtain ⟨-, rfl, -⟩ := h
      exact .right _ (.right _ (by simp [hout]))
    · simp at h

/-- Lets the head make steps until it has none to make. The rest settles before each step. -/
def settleHead (settleRest : Results → List Process → Results × List Process) (capacity : Nat)
    (now : Instant) (r : Results) (p : Process) (rest : List Process) : Results × List Process :=
  let settled := settleRest r rest
  match _h : stepHead capacity now settled.1 p settled.2 with
  | none => (settled.1, p :: settled.2)
  | some (r, p', rest) => settleHead settleRest capacity now r p' rest
termination_by work p
decreasing_by exact lessWork_stepHead _h

/-- Settles up to `n` processes. -/
def settleFirst (capacity : Nat) (now : Instant) :
    Nat → Results → List Process → Results × List Process
  | 0, r, processes => (r, processes)
  | _, r, [] => (r, [])
  | n + 1, r, p :: rest => settleHead (settleFirst capacity now n) capacity now r p rest

/-- Lets all processes make steps until none has one to make. -/
def settle (now : Instant) (n : Network) : Network :=
  let (results, processes) := settleFirst n.capacity now n.processes.length n.results n.processes
  { n with results, processes }

end Network

end SeriesPipeline
