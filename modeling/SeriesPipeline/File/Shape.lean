import SeriesPipeline.Data.Series
import SeriesPipeline.File.Section
import SeriesPipeline.Toml.Reader

/-!
# The shape of a pipeline file

A file is read from an object whose keys are all known and whose values have the right types. Keys
that are null count as absent. The file, the settings and the sections may also be given as arrays
of their values in order. Where arrays are not `exact`, values past the expected ones are passed
over.
-/

namespace SeriesPipeline

namespace Shape

abbrev Fields := List (String × Json)

def onlyKeys (known : List String) (fields : Fields) : Bool :=
  fields.all fun e => known.contains e.1

def isNull : Json → Bool
  | .null => true
  | _ => false

/-- Reads a value that has to be there. -/
def required? {α : Type} (read : Json → Option α) (key : String) (fields : Fields) : Option α :=
  (Json.field? key fields).bind read

/-- Reads a value that may be absent but has to be readable if it is there. -/
def orElse? {α : Type} (read : Json → Option α) (absent : α) (key : String) (fields : Fields) :
    Option α :=
  match Json.field? key fields with
  | none => some absent
  | some j => read j

/-- Reads a value that may be absent or null. -/
def optional? {α : Type} (read : Json → Option α) (key : String) (fields : Fields) :
    Option (Option α) :=
  orElse? (fun j => if isNull j then some none else (read j).map some) none key fields

def count? : Json → Option Nat
  | .int n => if isUnsignedWord n then some n.toNat else none
  | _ => none

def number? : Json → Option Float
  | .int n => if isUnsignedWord n || (signedWord? n).isSome then some (Float.ofInt n) else none
  | .float x => some x
  | _ => none

def bounds? (exact : Bool) : Json → Option FlapBounds
  | .array (low :: high :: rest) => do
    if exact && !rest.isEmpty then none else return ⟨← number? low, ← number? high⟩
  | _ => none

/-- The fields of an object with the given keys, or of an array of at least `least` values. -/
def fieldsOf? (exact : Bool) (keys : List String) (least : Nat) : Json → Option Fields
  | .object fields =>
    if onlyKeys keys fields then some (fields.filter fun e => !isNull e.2) else none
  | .array items =>
    if items.length < least || (exact && keys.length < items.length) then none
    else some (keys.zip items)
  | _ => none

/-- A value that says no more than its key: null where arrays are `exact`, and an empty array or
object where they are not. -/
def isBare (exact : Bool) : Json → Bool
  | .null => exact
  | .array [] => !exact
  | .object [] => !exact
  | _ => false

/-- A kind by its name, which may also be the only key of an object, over a bare value. -/
def kind? (exact : Bool) : Json → Option SectionKind
  | .text name => SectionKind.ofText? name
  | .object [(name, j)] => if isBare exact j then SectionKind.ofText? name else none
  | _ => none

def settingsKeys : List String :=
  ["queue_capacity", "join_horizon", "window_horizon", "alert_history"]

def settings? (exact : Bool) (j : Json) : Option Settings := do
  let fields ← fieldsOf? exact settingsKeys 0 j
  let standard := Settings.standard
  return {
    queueCapacity := ← orElse? count? standard.queueCapacity "queue_capacity" fields
    joinHorizon := ← orElse? count? standard.joinHorizon "join_horizon" fields
    windowHorizon := ← optional? count? "window_horizon" fields
    alertHistory := ← orElse? count? standard.alertHistory "alert_history" fields }

def nodeKeys : List String :=
  ["kind", "from", "measurement", "query", "period", "every", "group_by", "where", "as", "on",
    "rename", "horizon", "name", "map", "reduce", "field", "expr", "alias", "predicate",
    "flapping", "history", "post"]

def node? (exact : Bool) (j : Json) : Option NodeSection := do
  let fields ← fieldsOf? exact nodeKeys nodeKeys.length j
  let text? := optional? Json.text?
  let texts? := optional? Json.texts?
  return {
    kind := ← required? (kind? exact) "kind" fields
    inputs := ← orElse? Json.texts? [] "from" fields
    measurement := ← text? "measurement" fields
    query := ← text? "query" fields
    period := ← text? "period" fields
    every := ← text? "every" fields
    groupBy := ← texts? "group_by" fields
    filter := ← text? "where" fields
    aliases := ← texts? "as" fields
    on := ← texts? "on" fields
    rename := ← optional? Json.textMap? "rename" fields
    horizon := ← optional? count? "horizon" fields
    name := ← text? "name" fields
    map := ← text? "map" fields
    reduce := ← text? "reduce" fields
    field := ← text? "field" fields
    expr := ← text? "expr" fields
    column := ← text? "alias" fields
    predicate := ← text? "predicate" fields
    flapping := ← optional? (bounds? exact) "flapping" fields
    history := ← optional? count? "history" fields
    post := ← text? "post" fields }

def nodes? (exact : Bool) (j : Json) : Option (SortedMap String NodeSection) := do
  let fields ← j.object?
  let nodes ← fields.mapM fun e => (node? exact e.2).map (e.1, ·)
  return SortedMap.ofList nodes

end Shape

namespace FileSections

open Shape

def ofShape? (exact : Bool) (j : Json) : Option FileSections := do
  let fields ← fieldsOf? exact ["name", "config", "node"] 1 j
  return {
    name := ← required? Json.text? "name" fields
    settings := ← orElse? (settings? exact) .standard "config" fields
    nodes := ← orElse? (nodes? exact) ∅ "node" fields }

def ofJson? (j : Json) : Option FileSections := ofShape? true j

def ofToml? (s : String) : Option FileSections :=
  (Toml.ofText? s).bind fun fields => ofShape? false (.object fields)

end FileSections

end SeriesPipeline
