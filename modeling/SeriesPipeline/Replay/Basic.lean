import SeriesPipeline.Task.Input
import SeriesPipeline.Time.Clock

/-!
# Replays

A replay feeds recorded batches to a task in order, with a barrier whenever the first time of a
batch is past that of the batch before. A driven replay sets the clock to the last time of each
batch; a paced one waits until somebody else has. After the last batch come a barrier at the clock's
time and the close.
-/

namespace SeriesPipeline

inductive ReplayMode where
  | paced
  | driven
  deriving DecidableEq

structure Replay where
  mode : ReplayMode
  /-- The batches left, with their numbers. -/
  batches : List (Nat × Batch)
  /-- The first time of the last batch that was not empty. -/
  lastStart : Option Instant
  /-- Whether only the end of the input is left. -/
  ending : Bool
  /-- The calls to make before the next batch. -/
  calls : List Call
  /-- The sends left of the call under way. -/
  sends : List Send

namespace Replay

def new (mode : ReplayMode) (batches : List Batch) : Replay :=
  ⟨mode, batches.zipIdx.map fun (b, i) => (i, b), none, false, [], []⟩

/-- What a replay finds when it looks at its next batch. -/
inductive Next where
  | finished
  /-- The clock has to be set first. -/
  | waiting
  | outOfOrder (cause : Failure)
  | ready (clock : Clock) (r : Replay)

def finalCalls (clock : Clock) : List Call := [.barrier clock.now, .close]

def batchCalls (lastStart : Option Instant) (first : Instant) (b : Batch) : List Call :=
  (if lastStart.any (· < first) then [.barrier first] else []) ++ [.batch b]

/-- The clock when a batch with the given last time is fed, if its time has come. -/
def clockFor? (mode : ReplayMode) (clock : Clock) (last : Instant) : Option Clock :=
  match mode with
  | .paced => if last ≤ clock.now then some clock else none
  | .driven => some (clock.set last)

/-- Turns to the next batch. Empty batches are skipped. -/
def next (clock : Clock) (r : Replay) : Next :=
  match r.batches with
  | [] =>
    if r.ending then .finished
    else .ready clock { r with ending := true, calls := finalCalls clock }
  | (i, b) :: batches =>
    match b.firstTime, b.lastTime with
    | some first, some last =>
      match r.lastStart.filter (first < ·) with
      | some previous => .outOfOrder (.outOfOrder i first previous)
      | none =>
        match clockFor? r.mode clock last with
        | none => .waiting
        | some clock =>
          .ready clock { r with
            batches, lastStart := some first, calls := batchCalls r.lastStart first b }
    | _, _ => .ready clock { r with batches }

/-- Where a replay stands when it can go no further for now. -/
inductive State where
  | pending (r : Replay)
  | ended (outcome : Except Failure Unit)

/-- What bounds the steps of a replay: batches first, then calls. -/
def left (r : Replay) : Nat × Nat × Nat :=
  (r.batches.length, if r.ending then 0 else 1, r.calls.length)

theorem left_next {clock clock' : Clock} {r r' : Replay} (h : r.next clock = .ready clock' r') :
    Prod.Lex (· < ·) (Prod.Lex (· < ·) (· < ·)) r'.left r.left := by
  unfold next at h
  split at h
  · rename_i hbatches
    split at h
    · simp at h
    · rename_i hending
      simp only [Next.ready.injEq] at h
      obtain ⟨-, rfl⟩ := h
      simp only [left, hbatches, hending]
      exact .right _ (.left _ _ (by simp))
  · rename_i i b batches hbatches
    split at h
    · split at h
      · simp at h
      · split at h
        · simp at h
        · simp only [Next.ready.injEq] at h
          obtain ⟨-, rfl⟩ := h
          exact .left _ _ (by simp [hbatches])
    · simp only [Next.ready.injEq] at h
      obtain ⟨-, rfl⟩ := h
      exact .left _ _ (by simp [hbatches])

/-- Goes on until the replay waits or has ended. -/
def advance (clock : Clock) (t : PipelineTask) (r : Replay) : Clock × PipelineTask × State :=
  match t.deliver clock.now r.sends with
  | (t, .waiting sends) => (clock, t, .pending { r with sends })
  | (t, .rejected) => (clock, t, .ended (.error (.inputClosed t.name)))
  | (t, .done) =>
    match _hcalls : r.calls with
    | c :: calls =>
      match t.begin? c with
      | some (t, sends) => advance clock t { r with calls, sends }
      | none => (clock, t, .ended (.error (.inputClosed t.name)))
    | [] =>
      match _hnext : { r with sends := [] }.next clock with
      | .finished => (clock, t, .ended (.ok ()))
      | .waiting => (clock, t, .pending { r with sends := [] })
      | .outOfOrder cause => (clock, t, .ended (.error cause))
      | .ready clock r => advance clock t r
termination_by r.left
decreasing_by
  · exact .right _ (.right _ (by simp [_hcalls]))
  · have := left_next _hnext
    exact this

/-- What a replay reports, and the task after it. A rejected call is put down to the failure of the
task. In any other case the task fails with the replay. -/
def conclude (t : PipelineTask) : Except Failure Unit → PipelineTask × Except Failure Unit
  | .ok () => (t, .ok ())
  | .error cause =>
    match cause, t.failure with
    | .inputClosed name, some first => (t, .error (.task name first))
    | cause, _ => (t.fail (.replay cause), .error cause)

/-- Goes on with a replay, and concludes it when it has ended. -/
def proceed (clock : Clock) (t : PipelineTask) (r : Replay) : Clock × PipelineTask × State :=
  match r.advance clock t with
  | (clock, t, .ended outcome) =>
    let (t, outcome) := conclude t outcome
    (clock, t, .ended outcome)
  | pending => pending

end Replay

end SeriesPipeline
