import SeriesPipeline.Data.Batch
import SeriesPipeline.Json.Reader

/-!
# Series, the written form of a batch

A series has the time as its first column and as the first cell of every row. A batch's window is
not written. `toBatch` undoes `ofBatch`, and also takes integer times.
-/

namespace SeriesPipeline

structure Series where
  name : String
  tags : Tags
  columns : List String
  values : List (List Value)

/-- Why a text or a series is no batch. -/
inductive SeriesFault where
  | notSeries
  | noTimeColumn (series : String)
  | width (series : String) (row values columns : Nat)
  | badTime (series : String) (row : Nat) (cell : Value)
  | inconsistent (cause : Inconsistency)

def SeriesFault.detail : SeriesFault → String
  | .notSeries => "invalid series JSON"
  | .noTimeColumn series => "series '" ++ series ++ "' must start with a \"time\" column"
  | .width series row values columns =>
    "series '" ++ series ++ "' row " ++ toString row ++ " has " ++ toString values
      ++ " values for " ++ toString columns ++ " columns"
  | .badTime series row cell =>
    "series '" ++ series ++ "' row " ++ toString row ++ " has an invalid time " ++ cell.message
  | .inconsistent cause => "inconsistent batch: " ++ cause.message

/-- The fault with the place where it was met. -/
def SeriesFault.messageAt (place : String) (f : SeriesFault) : String :=
  "Malformed batch: " ++ place ++ f.detail

def SeriesFault.message (f : SeriesFault) : String := f.messageAt ""

namespace Series

def timeColumn : String := "time"

def ofRow (r : Row) : List Value := .text r.time.text :: r.values

def ofBatch (b : Batch) : Series :=
  ⟨b.name, b.tags, timeColumn :: b.columns, b.rows.map ofRow⟩

def timeOf? : Value → Option Instant
  | .text s => Instant.ofText? s
  | .int n => some ⟨n⟩
  | _ => none

def toRow (name : String) (width : Nat) (i : Nat) (cells : List Value) :
    Except SeriesFault Row :=
  if cells.length ≠ width then .error (.width name i cells.length width)
  else match cells with
    | [] => .error (.width name i 0 width)
    | cell :: values =>
      match timeOf? cell with
      | some t => .ok ⟨t, values⟩
      | none => .error (.badTime name i cell)

/-- The rows from number `i` on. -/
def toRows (name : String) (width : Nat) : Nat → List (List Value) → Except SeriesFault (List Row)
  | _, [] => .ok []
  | i, cells :: rest => do
    let row ← toRow name width i cells
    let rows ← toRows name width (i + 1) rest
    return row :: rows

def toBatch (s : Series) : Except SeriesFault Batch :=
  match s.columns with
  | first :: columns =>
    if first = timeColumn then do
      let rows ← toRows s.name s.columns.length 0 s.values
      return ⟨s.name, s.tags, columns, rows, none⟩
    else .error (.noTimeColumn s.name)
  | [] => .error (.noTimeColumn s.name)

end Series

namespace Value

def toJson : Value → Json
  | .null => .null
  | .bool b => .bool b
  | .int n => .int n.toInt
  | .float x => .float x
  | .text s => .text s

/-- Integers beyond 64 bits are doubles; arrays and objects are no values. -/
def ofJson? : Json → Option Value
  | .null => some .null
  | .bool b => some (.bool b)
  | .int n =>
    match signedWord? n with
    | some w => some (.int w)
    | none => some (.float (Float.ofInt n))
  | .float x => some (.float x)
  | .text s => some (.text s)
  | _ => none

end Value

namespace Json

def text? : Json → Option String
  | .text s => some s
  | _ => none

def array? : Json → Option (List Json)
  | .array items => some items
  | _ => none

def object? : Json → Option (List (String × Json))
  | .object fields => some fields
  | _ => none

def texts? (j : Json) : Option (List String) := j.array?.bind (List.mapM text?)

/-- A map from texts to texts; the last of several equal keys counts. -/
def textMap? (j : Json) : Option Tags := do
  let fields ← j.object?
  let entries ← fields.mapM fun e => e.2.text?.map fun v => (e.1, v)
  return SortedMap.ofList entries

end Json

namespace Series

def toJson (s : Series) : Json :=
  .object [
    ("name", .text s.name),
    ("tags", .object (s.tags.toList.map fun e => (e.1, .text e.2))),
    ("columns", .array (s.columns.map .text)),
    ("values", .array (s.values.map fun cells => .array (cells.map Value.toJson)))]

def rowsOfJson? (j : Json) : Option (List (List Value)) :=
  j.array?.bind (List.mapM fun row => row.array?.bind (List.mapM Value.ofJson?))

/-- The tags and values of a series may be left out; its name and columns may not. -/
def ofParts? (name tags columns values : Option Json) : Option Series := do
  let name ← name.bind Json.text?
  let tags ← match tags with
    | none => some ∅
    | some j => j.textMap?
  let columns ← columns.bind Json.texts?
  let values ← match values with
    | none => some []
    | some j => rowsOfJson? j
  return ⟨name, tags, columns, values⟩

def fieldNames : List String := ["name", "tags", "columns", "values"]

/-- An object whose known fields occur once, or an array of the fields in order. -/
def ofJson? : Json → Option Series
  | .object fields =>
    if fieldNames.any (fun key => 1 < (fields.filter (·.1 = key)).length) then none
    else ofParts? (Json.field? "name" fields) (Json.field? "tags" fields)
      (Json.field? "columns" fields) (Json.field? "values" fields)
  | .array [name, tags, columns] => ofParts? (some name) (some tags) (some columns) none
  | .array [name, tags, columns, values] =>
    ofParts? (some name) (some tags) (some columns) (some values)
  | _ => none

end Series

/-- The batch of one line of text. -/
def Batch.ofLine (line : List Char) : Except SeriesFault Batch :=
  match (Json.ofChars? line).bind Series.ofJson? with
  | none => .error .notSeries
  | some series => do
    let batch ← series.toBatch
    match batch.checkConsistency with
    | .ok () => return batch
    | .error cause => .error (.inconsistent cause)

/-- Several series in one text. -/
structure Document where
  series : List Series

namespace Document

def ofBatches (batches : List Batch) : Document := ⟨batches.map Series.ofBatch⟩

def toJson (d : Document) : Json := .object [("series", .array (d.series.map Series.toJson))]

def text (d : Document) : String := d.toJson.render

end Document

end SeriesPipeline
