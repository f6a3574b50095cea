import SeriesPipeline.Operator.Fault
import SeriesPipeline.Operator.Flapping

/-!
# Alerting

A predicate gives every row a level, and each group keeps its latest one. A change of level is an
alert, or is only counted while the group is flapping. Batches pass unchanged.
-/

namespace SeriesPipeline

/-- A change of level of one group. -/
structure Alert where
  task : String
  node : String
  key : SeriesKey
  previous : Level
  level : Level
  /-- The time of the row. -/
  time : Instant
  /-- The time of the clock. -/
  observedAt : Instant
  fields : SortedMap String Value
  target : Option String

structure GroupLevel where
  level : Level
  detector : Option FlapDetector

structure Alerting where
  task : String
  node : String
  predicate : Formula
  flapping : Option FlapBounds
  history : Nat
  target : Option String
  groups : SortedMap SeriesKey GroupLevel
  sent : Nat
  suppressed : Nat

namespace Alerting

def new (task node : String) (n : AlertNode) (history : Nat) : Alerting :=
  ⟨task, node, n.predicate, n.flapping, n.history.getD history, n.target, ∅, 0, 0⟩

def levelOf (op : Alerting) (key : SeriesKey) : Option Level :=
  (op.groups.get? key).map (·.level)

/-- A group starts at the level OK. -/
def group (op : Alerting) (key : SeriesKey) : GroupLevel :=
  (op.groups.get? key).getD ⟨.ok, op.flapping.map (FlapDetector.new · op.history)⟩

def alertOf (op : Alerting) (now : Instant) (b : Batch) (row : Row) (previous level : Level) :
    Alert where
  task := op.task
  node := op.node
  key := b.key
  previous := previous
  level := level
  time := row.time
  observedAt := now
  fields := SortedMap.ofList (b.columns.zip row.values)
  target := op.target

/-- Takes in the level of one row of a batch. -/
def recordLevel (op : Alerting) (now : Instant) (b : Batch) (row : Row) (level : Level) :
    Alerting × Option Alert :=
  let group := op.group b.key
  let detector := group.detector.map (·.record level)
  let flapping := detector.any (·.flapping)
  let op := { op with groups := op.groups.insert b.key ⟨level, detector⟩ }
  if level = group.level then (op, none)
  else if flapping then ({ op with suppressed := op.suppressed + 1 }, none)
  else ({ op with sent := op.sent + 1 }, some (op.alertOf now b row group.level level))

/-- Takes in the rows one by one. A row that fails ends it; the levels before it stay recorded. -/
def recordRows (now : Instant) (b : Batch) (op : Alerting) :
    List Row → Alerting × Except StageFault (List Alert)
  | [] => (op, .ok [])
  | row :: rest =>
    match op.predicate.holdsIn b row with
    | .error fault => (op, .error fault)
    | .ok holds =>
      let (op, alert) := op.recordLevel now b row (if holds then .alerting else .ok)
      let (op, alerts) := recordRows now b op rest
      (op, alerts.map (alert.toList ++ ·))

def onBatch (op : Alerting) (now : Instant) (b : Batch) :
    Alerting × Except StageFault (List Alert) :=
  recordRows now b op b.rows

end Alerting

end SeriesPipeline
