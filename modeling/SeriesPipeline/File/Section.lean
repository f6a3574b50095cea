import SeriesPipeline.Blueprint.Basic
import SeriesPipeline.Blueprint.Settings

/-!
# Sections of a pipeline file

A pipeline file has a name, settings, and a section for each node. Sections are flat: which keys
make sense in one depends on its kind.
-/

namespace SeriesPipeline

inductive SectionKind where
  | source
  | window
  | join
  | union
  | mapReduce
  | alert
  | cache
  | output
  deriving DecidableEq

namespace SectionKind

def ofText? : String → Option SectionKind
  | "source" => some .source
  | "window" => some .window
  | "join" => some .join
  | "union" => some .union
  | "map_reduce" => some .mapReduce
  | "alert" => some .alert
  | "cache" => some .cache
  | "output" => some .output
  | _ => none

/-- The kind as messages show it. -/
def title : SectionKind → String
  | .source => "Source"
  | .window => "Window"
  | .join => "Join"
  | .union => "Union"
  | .mapReduce => "MapReduce"
  | .alert => "Alert"
  | .cache => "Cache"
  | .output => "Output"

def allowedKeys : SectionKind → List String
  | .source => ["measurement", "query", "period", "group_by", "where"]
  | .window => ["period", "every", "group_by"]
  | .join => ["as", "on", "rename", "name", "horizon"]
  | .union => ["name"]
  | .mapReduce => ["map", "reduce", "field", "expr", "alias"]
  | .alert => ["predicate", "flapping", "history", "post"]
  | .cache => ["name"]
  | .output => ["name"]

end SectionKind

structure NodeSection where
  kind : SectionKind
  inputs : List String
  measurement : Option String
  query : Option String
  period : Option String
  every : Option String
  groupBy : Option (List String)
  filter : Option String
  aliases : Option (List String)
  on : Option (List String)
  rename : Option Tags
  horizon : Option Nat
  name : Option String
  map : Option String
  reduce : Option String
  field : Option String
  expr : Option String
  column : Option String
  predicate : Option String
  flapping : Option FlapBounds
  history : Option Nat
  post : Option String

/-- The keys that are set, apart from the kind and the inputs. -/
def NodeSection.keys (s : NodeSection) : List String :=
  let present : List (Bool × String) := [
    (s.measurement.isSome, "measurement"), (s.query.isSome, "query"), (s.period.isSome, "period"),
    (s.every.isSome, "every"), (s.groupBy.isSome, "group_by"), (s.filter.isSome, "where"),
    (s.aliases.isSome, "as"), (s.on.isSome, "on"), (s.rename.isSome, "rename"),
    (s.horizon.isSome, "horizon"), (s.name.isSome, "name"), (s.map.isSome, "map"),
    (s.reduce.isSome, "reduce"), (s.field.isSome, "field"), (s.expr.isSome, "expr"),
    (s.column.isSome, "alias"), (s.predicate.isSome, "predicate"),
    (s.flapping.isSome, "flapping"), (s.history.isSome, "history"), (s.post.isSome, "post")]
  (present.filter (·.1)).map (·.2)

/-- A pipeline file as it is written. -/
structure FileSections where
  name : String
  settings : Settings
  /-- Sections by node id. -/
  nodes : SortedMap String NodeSection

end SeriesPipeline
