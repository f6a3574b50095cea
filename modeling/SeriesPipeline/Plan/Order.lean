import SeriesPipeline.Plan.Check

/-!
# Nodes in order

A depth-first search along the edges puts every node in front of its readers, unless there is a
cycle. A node is finished once all its readers are, and the order lists the nodes from the last
finished to the first. Readers are visited from the last to the first.
-/

namespace SeriesPipeline.Blueprint

/-- The nodes that read from `id`, in order of declaration. -/
def readers (b : Blueprint) (id : String) : List String :=
  (b.edges.filter (·.1 = id)).map (·.2)

structure Search where
  discovered : List String
  /-- Last finished first. -/
  finished : List String

/-- Visits a node and all that can be reached from it. The fuel bounds the length of a path; a path
of new nodes is no longer than the number of nodes. -/
def visit (b : Blueprint) : Nat → Search → String → Search
  | 0, s, _ => s
  | fuel + 1, s, id =>
    if s.discovered.contains id then s
    else
      let entered := { s with discovered := id :: s.discovered }
      let s := (b.readers id).reverse.foldl (visit b fuel) entered
      { s with finished := id :: s.finished }

def searchOrder (b : Blueprint) : List String :=
  ((b.nodes.map (·.id)).foldl (visit b b.nodes.length) ⟨[], []⟩).finished

def inputsOf (b : Blueprint) (id : String) : List String :=
  match b.node? id with
  | some n => n.inputs
  | none => []

/-- Of the first node in a list that reads from a node not placed before it, the last such input. -/
def misplaced? (b : Blueprint) : List String → List String → Option String
  | _, [] => none
  | placed, id :: rest =>
    match (b.inputsOf id).reverse.find? (fun input => !placed.contains input) with
    | some input => some input
    | none => misplaced? b (id :: placed) rest

def order (b : Blueprint) : Except GraphFault (List String) :=
  let ids := b.searchOrder
  match b.misplaced? [] ids with
  | some id => .error (.cycle id)
  | none => .ok ids

end SeriesPipeline.Blueprint
