import SeriesPipeline.Blueprint.Basic
import SeriesPipeline.Operator.Fault

/-!
# Reducing

Every batch is mapped row by row and put together to one row at the batch's last time, or, with the
identity reduction, to a row per contribution.
-/

namespace SeriesPipeline

/-- Places the 64 bits of a double in the total order: those with the sign bit come first, falling,
and then the others, rising. The zeros stand apart, and NaN comes first or last by its sign. -/
def totalOrderKey (bits : UInt64) : Int :=
  let n : Int := bits.toNat
  if n ≤ Int64.maxValue.toInt then n else Int64.maxValue.toInt - n

/-- The integer next above `x`, cut to 64 bits; zero for NaN. -/
def ceilWord (x : Float) : Int64 :=
  match Decimal.ceil? x with
  | some n => Int64.ofIntClamp n
  | none =>
    if x == 1.0 / 0.0 then Int64.maxValue
    else if x == -1.0 / 0.0 then Int64.minValue
    else 0

/-- The nearest-rank percentile: the element number `p / 100 * n`, rounded up, of `n` sorted ones,
or the first or last one where there is no such number. Positions are words of 64 bits, so the one
before the least is the greatest. -/
def percentileRank (p : Float) (n : Nat) : Nat :=
  let position := ceilWord (p / 100.0 * Float.ofNat n) - 1
  (min (max position.toInt 0) (n - 1 : Int)).toNat

/-- The percentile of doubles in their bits, which tell one NaN from another. -/
def percentileOfBits (xs : List UInt64) (p : Float) : Option UInt64 :=
  let sorted := xs.mergeSort fun x y => decide (totalOrderKey x ≤ totalOrderKey y)
  sorted[percentileRank p xs.length]?

/-- All NaN are one `Float`, whose bits are those of a NaN without sign. -/
def percentile (xs : List Float) (p : Float) : Option Float :=
  (percentileOfBits (xs.map Float.toBits) p).map Float.ofBits

structure Reducing where
  map : Mapping
  reduce : Reduction
  field : Option String
  column : String

namespace Reducing

def ofNode (n : ReduceNode) : Reducing := ⟨n.map, n.reduce, n.field, n.column⟩

/-- What one row contributes to the result, if anything. -/
abbrev Contribution := Instant × Value

def fieldIndex (op : Reducing) (b : Batch) : Except StageFault (Option Nat) :=
  match op.field with
  | none => .ok none
  | some field =>
    match b.columnIndex field with
    | some i => .ok (some i)
    | none => .error (.missingField field)

def cell (row : Row) (i : Nat) : Value := row.values[i]?.getD .null

def mapRow (op : Reducing) (b : Batch) (index : Option Nat) (row : Row) :
    Except StageFault (Option Contribution) :=
  match op.map with
  | .count =>
    let counted := match index with
      | some i => !(cell row i).isNull
      | none => true
    .ok (if counted then some (row.time, .float 1.0) else none)
  | .identity =>
    match index with
    | none => .error (.missingField "<field>")
    | some i => .ok (if (cell row i).isNull then none else some (row.time, cell row i))
  | .formula f => do
    let v ← f.valueIn b row
    return some (row.time, v)

def mapRows (op : Reducing) (b : Batch) (index : Option Nat) :
    List Row → Except StageFault (List Contribution)
  | [] => .ok []
  | row :: rest => do
    let c ← op.mapRow b index row
    let cs ← mapRows op b index rest
    return c.toList ++ cs

def numbers (op : Reducing) : List Contribution → Except StageFault (List Float)
  | [] => .ok []
  | (_, v) :: rest =>
    match v.toFloat? with
    | none => .error (.notNumeric (op.field.getD op.column) v)
    | some x => do
      let xs ← numbers op rest
      return x :: xs

/-- The sum from left to right; the sum of nothing is negative zero. -/
def sum (xs : List Float) : Float := xs.foldl (· + ·) (-0.0)

/-- NaN gives way to the other number, and of equal numbers the second is taken. -/
def smaller (x y : Float) : Float := if y.isNaN || x < y then x else y

def larger (x y : Float) : Float := if y.isNaN || y < x then x else y

def extreme? (pick : Float → Float → Float) : List Float → Option Float
  | [] => none
  | x :: rest => some (rest.foldl pick x)

/-- The result of a reduction that makes a number of numbers, if there is one. -/
def ofNumbers? (reduce : Reduction) (xs : List Float) : Option Float :=
  match reduce with
  | .sum => some (sum xs)
  | .mean => if xs.isEmpty then none else some (sum xs / Float.ofNat xs.length)
  | .min => extreme? smaller xs
  | .max => extreme? larger xs
  | .percentile p => percentile xs p
  | _ => none

def reduceRows (op : Reducing) (mapped : List Contribution) (time : Instant) :
    Except StageFault (List Row) :=
  let single (v : Option Value) : List Row := (v.map fun v => ⟨time, [v]⟩).toList
  match op.reduce with
  | .identity => .ok (mapped.map fun (t, v) => ⟨t, [v]⟩)
  | .count => .ok (single (some (.float (Float.ofNat mapped.length))))
  | .first => .ok (single (mapped.head?.map (·.2)))
  | .last => .ok (single (mapped.getLast?.map (·.2)))
  | reduce => do
    let xs ← op.numbers mapped
    return single ((ofNumbers? reduce xs).map .float)

def onBatch (op : Reducing) (b : Batch) : Except StageFault (Option Batch) :=
  match b.lastTime with
  | none => .ok none
  | some time => do
    let index ← op.fieldIndex b
    let mapped ← op.mapRows b index b.rows
    let rows ← op.reduceRows mapped time
    return if rows.isEmpty then none
      else some ⟨b.name, b.tags, [op.column], rows, b.window⟩

end Reducing

end SeriesPipeline
