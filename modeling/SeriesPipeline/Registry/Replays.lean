import SeriesPipeline.Registry.Basic
import SeriesPipeline.Replay.Basic

/-!
# Replays side by side

Any number of replays may feed the tasks of a registry at once. What one of them does to the clock
may wake others.
-/

namespace SeriesPipeline

structure ReplayRun where
  handle : TaskHandle
  state : Replay.State

structure Player where
  registry : Registry
  /-- In order of their start. -/
  runs : List ReplayRun

namespace Player

/-- Goes on with one replay as far as it gets. -/
def proceedOne (r : Registry) (run : ReplayRun) : Registry × ReplayRun :=
  match run.state, r.task? run.handle with
  | .pending replay, some t =>
    let (clock, t, state) := replay.proceed r.clock t
    (({ r with clock }.setTask run.handle t), { run with state })
  | _, _ => (r, run)

def proceedAll (r : Registry) : List ReplayRun → Registry × List ReplayRun
  | [] => (r, [])
  | run :: rest =>
    let (r, run) := proceedOne r run
    let (r, rest) := proceedAll r rest
    (r, run :: rest)

def round (p : Player) : Player :=
  let (registry, runs) := proceedAll p.registry.settle p.runs
  ⟨registry.settle, runs⟩

/-- Lets everything go on until nothing can. Driven replays never wait and paced ones leave the
clock alone, so in a second round the clock stands still. -/
def settle (p : Player) : Player := p.round.round

def play (p : Player) (h : TaskHandle) (r : Replay) : Player :=
  { p with runs := p.runs ++ [⟨h, .pending r⟩] }

/-- Plays the batches of a file. A file that cannot be read ends the replay before its start. -/
def playFile (p : Player) (h : TaskHandle) (mode : ReplayMode)
    (batches : Except Failure (List Batch)) : Player :=
  match batches, p.registry.task? h with
  | .ok batches, _ => p.play h (.new mode batches)
  | .error cause, some t =>
    let (t, outcome) := Replay.conclude t (.error cause)
    ⟨p.registry.setTask h t, p.runs ++ [⟨h, .ended outcome⟩]⟩
  | .error cause, none => { p with runs := p.runs ++ [⟨h, .ended (.error cause)⟩] }

end Player

end SeriesPipeline
