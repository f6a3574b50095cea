import SeriesPipeline.Plan.Basic
import SeriesPipeline.Task.Network

/-!
# Tasks

A task runs a plan: a process for each stage, and an inlet for each source. Its input is open until
it is closed or the last process has exited. A fatal failure, or one reported from outside, aborts
all processes; other failures leave the rest running.
-/

namespace SeriesPipeline

/-- The way in to a source. -/
structure Inlet where
  process : Nat
  measurement : Option String

def Inlet.accepts (i : Inlet) (name : String) : Bool := i.measurement.all (· = name)

structure PipelineTask where
  plan : Plan
  network : Network
  /-- None once the input is closed. -/
  inlets : Option (List Inlet)
  abortRequested : Bool
  finished : Bool

def PlannedStage.ports (s : PlannedStage) : Nat :=
  match s.kind with
  | .source _ => 1
  | _ => s.inputs.length

namespace Plan

/-- The ports of later stages that read from the stage right before them. -/
def outletsFrom (number : Nat) (later : List PlannedStage) : List Outlet :=
  (later.zipIdx).flatMap fun (s, between) =>
    (s.inputs.zipIdx).filterMap fun (input, port) =>
      if input = number then some ⟨between, port⟩ else none

def process (p : Plan) (number : Nat) (s : PlannedStage) : Process :=
  .new (.new s.id (.ofNode p.name s.node p.settings s.kind) s.ports)
    (outletsFrom number (p.stages.drop (number + 1)))

def inlet? (number : Nat) (s : PlannedStage) : Option Inlet :=
  match s.kind with
  | .source n => some ⟨number, n.measurement⟩
  | _ => none

/-- A network at its start: nothing has been sent. -/
def network (p : Plan) : Network :=
  ⟨max 1 p.settings.queueCapacity, p.stages.mapIdx p.process, .empty⟩

def inlets (p : Plan) : List Inlet := (p.stages.mapIdx inlet?).reduceOption

end Plan

namespace PipelineTask

def launch (p : Plan) : PipelineTask := ⟨p, p.network, some p.inlets, false, false⟩

def name (t : PipelineTask) : String := t.plan.name

def isClosed (t : PipelineTask) : Bool := t.inlets.isNone

def failure (t : PipelineTask) : Option Failure := t.network.results.failure

def stats (t : PipelineTask) : List (String × Stats) :=
  t.network.processes.map fun p => (p.stage.id, p.stage.stats)

def published (t : PipelineTask) : List String := t.network.results.cache.names

/-- What was published last under an output's name. -/
def output? (t : PipelineTask) (name : String) : Option Document :=
  t.network.results.cache.get? name

/-- How a task has ended, if it has. -/
def outcome? (t : PipelineTask) : Option (Except Failure Unit) :=
  if t.finished then
    match t.failure with
    | some cause => some (.error cause)
    | none => some (.ok ())
  else none

/-- Hands over the alerts that nobody has picked up yet. -/
def takeAlerts (t : PipelineTask) : PipelineTask × List Alert :=
  let results := { t.network.results with alerts := [] }
  ({ t with network := { t.network with results } }, t.network.results.alerts)

/-- Reports a failure, unless there was one before, and asks for all processes to be aborted. -/
def fail (t : PipelineTask) (cause : Failure) : PipelineTask :=
  { t with
    network := { t.network with results := t.network.results.record cause }
    abortRequested := true }

/-- Aborts all processes when that is called for. -/
def superviseAbort (t : PipelineTask) : PipelineTask :=
  if t.abortRequested || t.network.isDoomed then { t with network := t.network.abort } else t

/-- Ends the task once all processes have exited. -/
def superviseEnd (t : PipelineTask) : PipelineTask :=
  if t.network.hasExited then { t with inlets := none, finished := true } else t

/-- Lets all processes run until none can go on. -/
def settle (now : Instant) (t : PipelineTask) : PipelineTask :=
  { t with network := t.network.settle now }.superviseAbort.superviseEnd

end PipelineTask

end SeriesPipeline
