import SeriesPipeline.Json.Basic

/-!
# Tables of TOML documents

A table may be filled from several places of a document, but each table is opened in one way only:
by its own header, by headers of tables inside it, or by the points of a key.
-/

namespace SeriesPipeline.Toml

/-- How a table was opened. -/
inductive Opening where
  | byHeader
  /-- By a header of a table inside it, which leaves it open for its own. -/
  | byInnerHeader
  | byKey
  deriving DecidableEq

inductive Entry where
  | value (j : Json)
  | table (opening : Opening) (fields : List (String × Entry))
  /-- A list of tables, each opened by a header. -/
  | tables (items : List (List (String × Entry)))

abbrev Fields := List (String × Entry)

/-- Replaces what stands under a key, or adds it. -/
def alter (key : String) (f : Option Entry → Option Entry) : Fields → Option Fields
  | [] => (f none).map fun e => [(key, e)]
  | (k, e) :: rest =>
    if k = key then (f (some e)).map fun e => (k, e) :: rest
    else (alter key f rest).map ((k, e) :: ·)

/-- Works on the table at a path, and opens the tables on the way that are missing. In a list of
tables the last one is meant. The points of a key do not lead into a table with a header. -/
def within (opening : Opening) (f : Opening → Fields → Option Fields) :
    List String → Opening → Fields → Option Fields
  | [], found, fields => f found fields
  | key :: path, _, fields => alter key (fun
      | none => (within opening f path opening []).map (.table opening)
      | some (.value _) => none
      | some (.table found inner) =>
        if opening = .byKey && found = .byHeader then none
        else (within opening f path found inner).map (.table found)
      | some (.tables items) =>
        (within opening f path .byHeader (items.getLastD [])).map fun last =>
          .tables (items.dropLast ++ [last])) fields

/-- Sets a new key. Its points have to end in a table that such keys have opened. -/
def assign (path : List String) (key : String) (j : Json) (fields : Fields) : Option Fields :=
  within .byKey (fun found fields =>
    if (found = .byKey) = path.isEmpty then none
    else alter key (fun
      | none => some (.value j)
      | some _ => none) fields) path .byHeader fields

/-- The effect of a header such as `[a.b]`. -/
def openTable (path : List String) (key : String) (root : Fields) : Option Fields :=
  within .byInnerHeader (fun _ fields => alter key (fun
    | none => some (.table .byHeader [])
    | some (.table .byInnerHeader inner) => some (.table .byHeader inner)
    | some _ => none) fields) path .byHeader root

/-- The effect of a header such as `[[a.b]]`. -/
def addTable (path : List String) (key : String) (root : Fields) : Option Fields :=
  within .byInnerHeader (fun _ fields => alter key (fun
    | none => some (.tables [[]])
    | some (.tables items) => some (.tables (items ++ [[]]))
    | some _ => none) fields) path .byHeader root

/-- Sets a key below a header. -/
def assignBelow (header path : List String) (key : String) (j : Json) (root : Fields) :
    Option Fields :=
  within .byInnerHeader (fun _ fields => assign path key j fields) header .byHeader root

mutual

def Entry.toJson : Entry → Json
  | .value j => j
  | .table _ fields => .object (fieldsToJson fields)
  | .tables items => .array (itemsToJson items)

def fieldsToJson : List (String × Entry) → List (String × Json)
  | [] => []
  | (k, e) :: rest => (k, e.toJson) :: fieldsToJson rest

def itemsToJson : List (List (String × Entry)) → List Json
  | [] => []
  | fields :: rest => .object (fieldsToJson fields) :: itemsToJson rest

end

end SeriesPipeline.Toml
