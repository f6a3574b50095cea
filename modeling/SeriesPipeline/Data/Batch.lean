import SeriesPipeline.Data.Value
import SeriesPipeline.SortedMap
import SeriesPipeline.Time.Window

/-!
# Batches

A batch holds rows of one series under one list of columns. Its key is the name and the tags.
`pushAligned` appends a row laid out under other columns: columns not seen before go to the end,
and cells that no row filled are null.
-/

namespace SeriesPipeline

abbrev Tags := SortedMap String String

structure Row where
  time : Instant
  values : List Value
  deriving Inhabited

structure SeriesKey where
  name : String
  tags : Tags
  deriving DecidableEq

namespace SeriesKey

/-- Keys are ordered by name, then by tags. -/
instance : Ord SeriesKey where
  compare j k := @compare _ lexOrd (j.name, j.tags) (k.name, k.tags)

instance : Std.TransOrd SeriesKey where
  eq_swap {_ _} := @Std.OrientedCmp.eq_swap _ (@compare (String × Tags) lexOrd) _ _ _
  isLE_trans {_ _ _} := @Std.TransCmp.isLE_trans _ (@compare (String × Tags) lexOrd) _ _ _ _

instance : Std.LawfulEqOrd SeriesKey where
  compare_self {_} := @Std.ReflCmp.compare_self _ (@compare (String × Tags) lexOrd) _ _
  eq_of_compare {j k} h := by
    have := @Std.LawfulEqCmp.eq_of_compare _ (@compare (String × Tags) lexOrd) _ _ _ h
    cases j; cases k; simp_all

def text (k : SeriesKey) : String :=
  k.name ++ String.join (k.tags.toList.map fun e => "," ++ e.1 ++ "=" ++ e.2)

end SeriesKey

structure Batch where
  name : String
  tags : Tags
  columns : List String
  rows : List Row
  window : Option Window
  deriving Inhabited

/-- Why the rows of a batch do not fit together. -/
inductive Inconsistency where
  | columnTwice (batch column : String)
  | width (batch : String) (row values columns : Nat)
  | order (batch : String) (row : Nat) (time previous : Instant)

def Inconsistency.message : Inconsistency → String
  | .columnTwice batch column => "batch '" ++ batch ++ "' declares column '" ++ column ++ "' twice"
  | .width batch row values columns =>
    "batch '" ++ batch ++ "' row " ++ toString row ++ " has " ++ toString values
      ++ " values for " ++ toString columns ++ " columns"
  | .order batch row time previous =>
    "batch '" ++ batch ++ "' row " ++ toString row ++ " at " ++ time.text
      ++ " precedes previous row at " ++ previous.text

namespace Batch

def key (b : Batch) : SeriesKey := ⟨b.name, b.tags⟩

def isEmpty (b : Batch) : Bool := b.rows.isEmpty

/-- The first column of that name. -/
def columnIndex (b : Batch) (column : String) : Option Nat := b.columns.idxOf? column

def firstTime (b : Batch) : Option Instant := b.rows.head?.map (·.time)

def lastTime (b : Batch) : Option Instant := b.rows.getLast?.map (·.time)

/-- The batch's window, or the instant of its first row. -/
def alignmentWindow (b : Batch) : Option Window :=
  b.window <|> b.firstTime.map Window.instant

/-- The first column that occurs earlier in the list. -/
def repeatedColumn? : List String → List String → Option String
  | _, [] => none
  | seen, c :: rest => if seen.contains c then some c else repeatedColumn? (c :: seen) rest

/-- Checks rows from number `i` on, the row before them being at `previous`. -/
def checkRows (name : String) (width : Nat) :
    Nat → Option Instant → List Row → Except Inconsistency Unit
  | _, _, [] => .ok ()
  | i, previous, row :: rest =>
    if row.values.length ≠ width then .error (.width name i row.values.length width)
    else match previous with
      | some p =>
        if row.time < p then .error (.order name i row.time p)
        else checkRows name width (i + 1) (some row.time) rest
      | none => checkRows name width (i + 1) (some row.time) rest

/-- Columns are distinct, every row has a value per column, and times never go back. -/
def checkConsistency (b : Batch) : Except Inconsistency Unit :=
  match repeatedColumn? [] b.columns with
  | some c => .error (.columnTwice b.name c)
  | none => checkRows b.name b.columns.length 0 none b.rows

/-- The columns with those of `new` that are missing, in order of first appearance. -/
def addColumns (columns new : List String) : List String :=
  new.foldl (fun cs c => if cs.contains c then cs else cs ++ [c]) columns

def Row.widen (r : Row) (n : Nat) : Row :=
  { r with values := r.values ++ List.replicate n .null }

/-- One value per column: each cell goes to the first column of its name. -/
def layOut (columns : List String) (cells : List (String × Value)) : List Value :=
  cells.foldl
    (fun values cell =>
      match columns.idxOf? cell.1 with
      | some i => values.set i cell.2
      | none => values)
    (List.replicate columns.length .null)

/-- Appends a row laid out as `columns`. -/
def pushAligned (b : Batch) (columns : List String) (row : Row) : Batch :=
  if columns = b.columns then { b with rows := b.rows ++ [row] }
  else
    let widened := addColumns b.columns columns
    let added := widened.length - b.columns.length
    { b with
      columns := widened
      rows := b.rows.map (Row.widen · added)
        ++ [⟨row.time, layOut widened (columns.zip row.values)⟩] }

/-- Rows in order of time; rows of one time keep their order. -/
def sortRows (b : Batch) : Batch :=
  { b with rows := b.rows.mergeSort (fun r s => decide (r.time ≤ s.time)) }

end Batch

end SeriesPipeline
