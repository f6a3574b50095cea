import SeriesPipeline.Task.Input
import SeriesPipeline.Time.Clock

/-!
# The registry of tasks

A registry runs tasks under the names of their pipelines, at most one at a time under a name. Tasks
share its clock and settings and nothing else. A stopped task can still be looked at, by its handle.
-/

namespace SeriesPipeline

/-- The tasks started under one name. -/
structure NamedTasks where
  /-- Oldest first. -/
  started : List PipelineTask
  /-- Whether the latest is still registered. -/
  registered : Bool

/-- A name, and how many tasks were started under it before. -/
structure TaskHandle where
  name : String
  number : Nat
  deriving DecidableEq

structure Registry where
  clock : Clock
  settings : Settings
  names : SortedMap String NamedTasks

inductive RegistryFault where
  | plan (cause : PlanFault)
  | duplicateTask (name : String)
  | unknownTask (name : String)
  | noResult (name output : String)
  | failure (cause : Failure)

def RegistryFault.message : RegistryFault → String
  | .plan cause => cause.message
  | .duplicateTask name => "Task already running: " ++ name
  | .unknownTask name => "Unknown task: " ++ name
  | .noResult name output => "No result for output '" ++ output ++ "' of task '" ++ name ++ "'"
  | .failure cause => cause.message

namespace Registry

def new (clock : Clock) (settings : Settings) : Registry := ⟨clock, settings, ∅⟩

def named (r : Registry) (name : String) : NamedTasks := (r.names.get? name).getD ⟨[], false⟩

def running (r : Registry) : List String :=
  (r.names.filter fun _ named => named.registered).keys

/-- The latest task under a name, registered or not. -/
def latest? (r : Registry) (name : String) : Option TaskHandle :=
  if (r.named name).started.isEmpty then none
  else some ⟨name, (r.named name).started.length - 1⟩

/-- The task that runs under a name. -/
def find (r : Registry) (name : String) : Except RegistryFault TaskHandle :=
  match r.latest? name with
  | some handle => if (r.named name).registered then .ok handle else .error (.unknownTask name)
  | none => .error (.unknownTask name)

def task? (r : Registry) (h : TaskHandle) : Option PipelineTask :=
  (r.named h.name).started[h.number]?

def setTask (r : Registry) (h : TaskHandle) (t : PipelineTask) : Registry :=
  let named := r.named h.name
  { r with names := r.names.insert h.name { named with started := named.started.set h.number t } }

/-- Lets all tasks run until none can go on. -/
def settle (r : Registry) : Registry :=
  { r with names := r.names.map fun _ named =>
      { named with started := named.started.map (·.settle r.clock.now) } }

def setClock (r : Registry) (t : Instant) : Registry := { r with clock := r.clock.set t }

/-- Plans a blueprint and launches it under its name. -/
def start (r : Registry) (b : Blueprint) : Except RegistryFault (Registry × PipelineTask) :=
  match Plan.ofBlueprint b r.settings with
  | .error cause => .error (.plan cause)
  | .ok plan =>
    let named := r.named b.name
    if named.registered then .error (.duplicateTask b.name)
    else
      let t := PipelineTask.launch plan
      .ok ({ r with names := r.names.insert b.name ⟨named.started ++ [t], true⟩ }, t)

/-- Makes a call on the input of a task. -/
def call (r : Registry) (h : TaskHandle) (c : Call) : Registry × Delivery :=
  match r.task? h with
  | some t =>
    let (t, delivery) := t.call r.clock.now c
    (r.setTask h t, delivery)
  | none => (r, .rejected)

/-- Reports a failure of a task from outside. -/
def fail (r : Registry) (h : TaskHandle) (message : String) : Registry :=
  match r.task? h with
  | some t => r.setTask h (t.fail (.reported message))
  | none => r

/-- Forgets a name, so that it can be used again. -/
def release (r : Registry) (name : String) : Registry :=
  { r with names := r.names.insert name { r.named name with registered := false } }

/-- Closes the input of the task under a name, lets it run to its end, and forgets the name. -/
def stop (r : Registry) (name : String) : Except RegistryFault (Registry × TaskHandle) := do
  let h ← r.find name
  let (r, _) := r.call h .close
  return (r.settle.release name, h)

/-- The latest result of an output of a task. -/
def output (r : Registry) (h : TaskHandle) (name : String) : Except RegistryFault Document :=
  match (r.task? h).bind (·.output? name) with
  | some document => .ok document
  | none => .error (.noResult h.name name)

/-- Hands over the alerts of all tasks that nobody has picked up yet. -/
def takeAlerts (r : Registry) : Registry × List Alert :=
  let alerts := r.names.values.flatMap fun named =>
    named.started.flatMap fun t => t.takeAlerts.2
  let names := r.names.map fun _ named =>
    { named with started := named.started.map fun t => t.takeAlerts.1 }
  ({ r with names }, alerts)

end Registry

end SeriesPipeline
