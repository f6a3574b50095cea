import SeriesPipeline.Blueprint.Reduction

/-!
# Blueprints

A blueprint names a pipeline and lists its nodes, each with the nodes it reads from. It is only a
description: a plan is a blueprint that has been checked and put in order.
-/

namespace SeriesPipeline

structure SourceNode where
  /-- Only batches of this name are let in; all of them when absent. -/
  measurement : Option String
  query : Option String
  /-- The length of windows to group the rows into. -/
  period : Option Span
  grouping : Grouping
  filter : Option Formula

structure WindowNode where
  period : Span
  /-- The distance of window ends, the period when absent. -/
  every? : Option Span
  grouping : Grouping

def WindowNode.every (n : WindowNode) : Span := n.every?.getD n.period

structure JoinNode where
  /-- One alias per input. -/
  aliases : List String
  /-- The tags that have to match, all of them when empty. -/
  on : List String
  /-- New names of tags, by old name. -/
  rename : Tags
  name : Option String
  horizon : Option Nat

structure UnionNode where
  name : Option String

structure ReduceNode where
  map : Mapping
  reduce : Reduction
  field : Option String
  output : Option String

/-- The column of the results. -/
def ReduceNode.column (n : ReduceNode) : String :=
  match n.output with
  | some name => name
  | none =>
    match n.map, n.reduce with
    | .count, .sum => "count"
    | .identity, .identity => n.field.getD "identity"
    | _, reduce => reduce.name

/-- Bounds, in percent, of the rate of level changes. -/
structure FlapBounds where
  low : Float
  high : Float

structure AlertNode where
  predicate : Formula
  flapping : Option FlapBounds
  history : Option Nat
  target : Option String

structure CacheNode where
  name : Option String

structure OutputNode where
  name : String

inductive NodeKind where
  | source (n : SourceNode)
  | window (n : WindowNode)
  | join (n : JoinNode)
  | union (n : UnionNode)
  | reduce (n : ReduceNode)
  | alert (n : AlertNode)
  | cache (n : CacheNode)
  | output (n : OutputNode)

def NodeKind.name : NodeKind → String
  | .source _ => "source"
  | .window _ => "window"
  | .join _ => "join"
  | .union _ => "union"
  | .reduce _ => "map_reduce"
  | .alert _ => "alert"
  | .cache _ => "cache"
  | .output _ => "output"

def NodeKind.isOutput : NodeKind → Bool
  | .output _ => true
  | _ => false

structure Node where
  id : String
  kind : NodeKind
  /-- The nodes read from; their order fixes the ports. -/
  inputs : List String

/-- The name under which a node publishes. -/
def Node.outputName? (n : Node) : Option String :=
  match n.kind with
  | .cache c => some (c.name.getD n.id)
  | .output o => some o.name
  | _ => none

structure Blueprint where
  name : String
  nodes : List Node

namespace Blueprint

def node? (b : Blueprint) (id : String) : Option Node := b.nodes.find? (·.id = id)

/-- Pairs of a node read from and its reader, reader by reader. -/
def edges (b : Blueprint) : List (String × String) :=
  b.nodes.flatMap fun n => n.inputs.map fun input => (input, n.id)

def outputNames (b : Blueprint) : List String := b.nodes.filterMap Node.outputName?

end Blueprint

end SeriesPipeline
