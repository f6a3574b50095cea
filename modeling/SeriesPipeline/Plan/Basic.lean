import SeriesPipeline.Plan.Order

/-!
# Plans

A plan lists stages so that each one reads only from stages before it. Every node has a stage of
its id, and a source with a period has a windowing stage right after it, which its readers read
from instead.
-/

namespace SeriesPipeline

structure PlannedStage where
  id : String
  node : String
  kind : NodeKind
  /-- The numbers of the stages read from, by port. -/
  inputs : List Nat

structure Plan where
  name : String
  settings : Settings
  stages : List PlannedStage
  outputs : List String

/-- Why there is no plan. -/
inductive PlanFault where
  | settings (cause : Settings.Fault)
  | graph (cause : GraphFault)

def PlanFault.message : PlanFault → String
  | .settings cause => "Configuration error: " ++ cause.message
  | .graph cause => "Invalid pipeline graph: " ++ cause.message

namespace Plan

/-- The stages laid out so far, and the number of the stage that stands for each node. -/
structure Layout where
  stages : List PlannedStage
  producers : List (String × Nat)

def Layout.producer? (l : Layout) (id : String) : Option Nat :=
  (l.producers.find? (·.1 = id)).map (·.2)

def groupingId (id : String) : String := id ++ "/group_by"

/-- The stages of a node whose first stage has the number `number`. -/
def stagesOf (n : Node) (number : Nat) (inputs : List Nat) : List PlannedStage :=
  let own : PlannedStage := ⟨n.id, n.id, n.kind, inputs⟩
  match n.kind with
  | .source s =>
    match s.period with
    | some period =>
      [own, ⟨groupingId n.id, n.id, .window ⟨period, none, s.grouping⟩, [number]⟩]
    | none => [own]
  | _ => [own]

def Layout.place (l : Layout) (n : Node) : Layout :=
  let added := stagesOf n l.stages.length (n.inputs.filterMap l.producer?)
  let stages := l.stages ++ added
  ⟨stages, (n.id, stages.length - 1) :: l.producers⟩

def layOut (b : Blueprint) (order : List String) : List PlannedStage :=
  ((order.filterMap b.node?).foldl Layout.place ⟨[], []⟩).stages

/-- Checks a blueprint and lays it out. -/
def ofBlueprint (b : Blueprint) (settings : Settings) : Except PlanFault Plan :=
  match settings.check with
  | .error cause => .error (.settings cause)
  | .ok () =>
    match b.check with
    | .error cause => .error (.graph cause)
    | .ok () =>
      match b.order with
      | .error cause => .error (.graph cause)
      | .ok order => .ok ⟨b.name, settings, layOut b order, b.outputNames⟩

end Plan

end SeriesPipeline
