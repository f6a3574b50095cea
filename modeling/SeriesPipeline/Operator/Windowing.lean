import SeriesPipeline.Blueprint.Grouping

/-!
# Windowing

Windows end at the multiples of `every` and are `period` long. A row is buffered in the pane of
every window that covers it, one pane per window end and group, unless the window has been closed.
Panes are emitted once time has passed their end, or early when more ends are open than the horizon
allows. With a bucket, a pane is emitted in pieces, one per bucket.
-/

namespace SeriesPipeline

/-- The panes of one window end, by group. -/
abbrev Panes := SortedMap SeriesKey Batch

structure Windowing where
  period : Span
  every : Span
  grouping : Grouping
  horizon : Option Nat
  panes : SortedMap Instant Panes
  /-- No window that ends here or earlier is opened again. -/
  closedThrough : Option Instant
  /-- Rows whose windows were all closed. -/
  lateRows : Nat
  /-- Rows that no window covers. -/
  unwindowedRows : Nat

namespace Windowing

def new (period every : Span) (grouping : Grouping) (horizon : Option Nat) : Windowing :=
  ⟨period, every, grouping, horizon, ∅, none, 0, 0⟩

/-- The ends of the windows that cover `t`: the multiples of `every` after `t` that are at most
`period` away, as far as they are instants. -/
def coveringEnds (period every : Int) (t : Instant) : List Instant :=
  let first := (t.toInt / every + 1) * every
  let last := min (t.toInt + period) Instant.greatest.toInt
  let count := if last < first then 0 else ((last - first) / every + 1).toNat
  (List.range count).map fun (k : Nat) => Instant.clamp (first + (k : Int) * every)

def isClosed (op : Windowing) (stop : Instant) : Bool := op.closedThrough.any (stop ≤ ·)

/-- Buffers a row, laid out as `columns`, in the pane of one window end. -/
def addToPane (panes : SortedMap Instant Panes) (key : SeriesKey) (columns : List String)
    (row : Row) (stop : Instant) : SortedMap Instant Panes :=
  let groups := (panes.get? stop).getD ∅
  let pane := (groups.get? key).getD ⟨key.name, key.tags, columns, [], none⟩
  panes.insert stop (groups.insert key (pane.pushAligned columns row))

/-- Places one row of a batch. -/
def addRow (key : SeriesKey) (columns : List String) (op : Windowing) (row : Row) : Windowing :=
  let covering := coveringEnds op.period.reach op.every.reach row.time
  let opened := covering.filter fun stop => !op.isClosed stop
  if covering.isEmpty then { op with unwindowedRows := op.unwindowedRows + 1 }
  else if opened.isEmpty then { op with lateRows := op.lateRows + 1 }
  else { op with
    panes := opened.foldl (fun panes stop => addToPane panes key columns row stop) op.panes }

/-- The first instant of the bucket of `t`, or the least instant. -/
def bucketStart (bucket : Span) (t : Instant) : Instant := t.floor bucket

def bucketWindow (bucket : Span) (t : Instant) : Window :=
  ⟨bucketStart bucket t, (bucketStart bucket t).after bucket⟩

/-- The rows in pieces of one bucket each, as batches like `b`. -/
def splitRows (bucket : Span) (b : Batch) : List Row → List Batch
  | [] => []
  | row :: rest =>
    let window := bucketWindow bucket row.time
    match splitRows bucket b rest with
    | piece :: pieces =>
      if piece.window.any (·.start = window.start) then
        { piece with rows := row :: piece.rows } :: pieces
      else { b with rows := [row], window := some window } :: piece :: pieces
    | [] => [{ b with rows := [row], window := some window }]

def splitBuckets (bucket : Span) (b : Batch) : List Batch := splitRows bucket b b.rows

/-- What is emitted of the panes of one end. -/
def flush (op : Windowing) (stop : Instant) (groups : Panes) : List Batch :=
  let window : Window := ⟨stop.before op.period, stop⟩
  groups.values.flatMap fun pane =>
    let sorted := pane.sortRows
    match op.grouping.bucket with
    | none => [{ sorted with window := some window }]
    | some bucket => splitBuckets bucket sorted

def flushAll (op : Windowing) (ends : List (Instant × Panes)) : List Batch :=
  ends.flatMap fun e => op.flush e.1 e.2

def closeThrough (op : Windowing) (t : Instant) : Windowing :=
  { op with closedThrough := some (match op.closedThrough with
    | some c => max c t
    | none => t) }

/-- Closes the smallest ends while more than the horizon are open. -/
def enforceHorizon (op : Windowing) : Windowing × List Batch :=
  match op.horizon with
  | none => (op, [])
  | some horizon =>
    let excess := op.panes.size - horizon
    let evicted := op.panes.toList.take excess
    let op := { op with panes := op.panes.keepLast horizon }
    (evicted.foldl (fun op e => op.closeThrough e.1) op, op.flushAll evicted)

def onBatch (op : Windowing) (b : Batch) : Windowing × List Batch :=
  (b.rows.foldl (addRow (op.grouping.keyFor b) b.columns) op).enforceHorizon

/-- Emits the panes that end at the watermark or earlier, in order. -/
def onWatermark (op : Windowing) (watermark : Instant) : Windowing × List Batch :=
  let ready := op.panes.filter fun stop _ => decide (stop ≤ watermark)
  let rest := op.panes.filter fun stop _ => !decide (stop ≤ watermark)
  ({ op with panes := rest }.closeThrough watermark, op.flushAll ready.toList)

/-- Windows still open when the input ends are never complete, and are dropped. -/
def onClose (op : Windowing) : Windowing := { op with panes := ∅ }

end Windowing

end SeriesPipeline
