import SeriesPipeline.Command.Arguments
import SeriesPipeline.File.Basic
import SeriesPipeline.File.Shape
import SeriesPipeline.Plan.Listing
import SeriesPipeline.Registry.Basic
import SeriesPipeline.Replay.Basic
import SeriesPipeline.Replay.File

/-!
# Sessions

A session loads a pipeline file, feeds its task from a replay file or line by line from its input,
and writes the results. A dry run only shows the plan. Input lines that are no batch are passed
over.
-/

namespace SeriesPipeline

/-- What a session reads from. -/
structure Surroundings where
  /-- What is found under a path. -/
  file : String → Found
  input : List UInt8

inductive SessionFault where
  | noPipelineFile
  | notToml
  | file (cause : FileFault)
  | start (cause : RegistryFault)
  | replay (cause : Failure)
  | endTime (cause : Span.Error)
  | inputNotText
  | noResult (cause : RegistryFault)
  | task (name : String) (cause : Failure)

def SessionFault.message : SessionFault → String
  | .noPipelineFile => "IO error"
  | .notToml => "TOML parsing error"
  | .file cause => cause.message
  | .start cause => cause.message
  | .replay cause => cause.message
  | .endTime cause => "Configuration error: " ++ cause.message
  | .inputNotText => "stream did not contain valid UTF-8"
  | .noResult cause => cause.message
  | .task name cause => "task '" ++ name ++ "' failed: " ++ cause.message

namespace PipelineFile

/-- The text of a file, if it is one. -/
def text? : Found → Option (List Char)
  | .content bytes => Lines.decoded? bytes
  | _ => none

def load (found : Found) : Except SessionFault PipelineFile :=
  match text? found with
  | none => .error .noPipelineFile
  | some cs =>
    match FileSections.ofToml? (String.ofList cs) with
    | none => .error .notToml
    | some sections => (ofSections sections).mapError .file

/-- What a dry run shows before the plan. -/
def overview (f : PipelineFile) : String :=
  let horizon := match f.settings.windowHorizon with
    | some n => ["  config.window_horizon = " ++ toString n]
    | none => []
  let lines :=
    ["batchflow dry-run",
      "  config.queue_capacity = " ++ toString f.settings.queueCapacity,
      "  config.join_horizon = " ++ toString f.settings.joinHorizon]
    ++ horizon
    ++ ["  config.alert_history = " ++ toString f.settings.alertHistory, "",
      "nodes (" ++ toString f.blueprint.nodes.length ++ "):"]
    ++ f.blueprint.nodes.map (fun n => "  - " ++ n.id ++ " [" ++ n.kind.name ++ "]")
    ++ ["edges:"]
    ++ f.blueprint.edges.map (fun e => "  " ++ e.1 ++ " -> " ++ e.2)
    ++ [""]
  String.join (lines.map (· ++ "\n"))

end PipelineFile

/-- What a session has written, and how it ended. -/
structure SessionResult where
  written : String
  fault : Option SessionFault

namespace Session

/-- A registry and the one task that a session runs in it. -/
structure Run where
  registry : Registry
  handle : TaskHandle

abbrev Outcome := Except SessionFault

/-- The batches that end by a given time. -/
def endingBy (stop : Instant) (batches : List Batch) : List Batch :=
  batches.filter fun b => b.lastTime.all (· ≤ stop)

/-- With an end, the clock is set there first, and later batches are left out. -/
def replayFor (clock : Clock) (end? : Option Instant) (batches : List Batch) : Clock × Replay :=
  match end? with
  | some stop => (clock.set stop, .new .paced (endingBy stop batches))
  | none => (clock, .new .driven batches)

def endTime? : Option String → Outcome (Option Instant)
  | none => .ok none
  | some text =>
    match Span.parse text with
    | .ok d => .ok (some (Instant.epoch.after d))
    | .error cause => .error (.endTime cause)

def feedReplay (r : Run) (path : String) (until? : Option String) (found : Found) :
    Outcome Run := do
  let batches ← (replayFile path found).mapError .replay
  let stop ← endTime? until?
  let (clock, replay) := replayFor r.registry.clock stop batches
  match r.registry.task? r.handle with
  | none => return r
  | some t =>
    let (clock, t, state) := replay.proceed clock t
    match state with
    | .ended (.error cause) => .error (.replay cause)
    | _ => return { r with registry := { r.registry with clock }.setTask r.handle t }

/-- Routes the batch of one line, if it is one. -/
def feedLine (r : Run) (line : List Char) : Outcome Run :=
  if line.all Text.isBlank then .ok r
  else match Batch.ofLine line with
    | .error _ => .ok r
    | .ok b =>
      match r.registry.call r.handle (.batch b) with
      | (_, .rejected) => .error (.start (.failure (.inputClosed r.handle.name)))
      | (registry, _) => .ok { r with registry }

def feedLines (r : Run) (input : List UInt8) : Outcome Run :=
  match Lines.decoded? input with
  | none => .error .inputNotText
  | some cs => (Lines.split cs).foldlM feedLine r

def documentLine (d : Document) : String := d.text ++ "\n"

/-- One output, which has to have a result, or all that have one. -/
def results (registry : Registry) (h : TaskHandle) (f : PipelineFile) (only : Option String) :
    Outcome String :=
  match only with
  | some name =>
    match registry.output h name with
    | .ok d => .ok (documentLine d)
    | .error cause => .error (.noResult cause)
  | none => .ok <| String.join <| f.blueprint.outputNames.map fun name =>
      match registry.output h name with
      | .ok d => documentLine d
      | .error _ => ""

def feed (a : Arguments) (s : Surroundings) (r : Run) : Outcome Run :=
  match a.replay with
  | some path => feedReplay r path a.until? (s.file path)
  | none => feedLines r s.input

/-- Runs the task of a file to its end. -/
def play (a : Arguments) (s : Surroundings) (f : PipelineFile) : Outcome SessionResult := do
  let (registry, t) ← ((Registry.new ⟨.epoch⟩ f.settings).start f.blueprint).mapError .start
  let r ← feed a s ⟨registry, ⟨t.name, 0⟩⟩
  let (registry, h) ← (r.registry.stop t.name).mapError .start
  let written ← results registry h f a.output
  let fault := ((registry.task? h).bind (·.failure)).map fun cause => .task t.name cause
  return ⟨written, fault⟩

def dryRun (f : PipelineFile) : Outcome SessionResult := do
  let plan ← (Plan.ofBlueprint f.blueprint f.settings).mapError fun cause => .start (.plan cause)
  return ⟨f.overview ++ plan.listing, none⟩

def run (a : Arguments) (s : Surroundings) : SessionResult :=
  let outcome := do
    let f ← PipelineFile.load (s.file a.pipeline)
    if a.dryRun then dryRun f else play a s f
  match outcome with
  | .ok result => result
  | .error fault => ⟨"", some fault⟩

end Session

end SeriesPipeline
