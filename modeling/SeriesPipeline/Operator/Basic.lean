import SeriesPipeline.Operator.Alerting
import SeriesPipeline.Operator.Intake
import SeriesPipeline.Operator.Joining
import SeriesPipeline.Operator.Merging
import SeriesPipeline.Operator.Reducing
import SeriesPipeline.Operator.Windowing
import SeriesPipeline.Plan.Basic

/-!
# Operators

An operator takes batches, watermarks and the end of its input, and answers with what to pass on.
A failed call leaves the operator as far as it got.
-/

namespace SeriesPipeline

/-- What an operator gives out: batches to pass on, alerts to deliver, and results to publish. -/
structure Emitted where
  batches : List Batch
  alerts : List Alert
  published : List (String × Batch)

namespace Emitted

def none : Emitted := ⟨[], [], []⟩

def ofBatches (batches : List Batch) : Emitted := ⟨batches, [], []⟩

end Emitted

inductive Operator where
  | intake (op : Intake)
  | windowing (op : Windowing)
  | joining (op : Joining)
  | merging (op : Merging)
  | reducing (op : Reducing)
  | alerting (op : Alerting)
  /-- Publishes every batch under a name and passes it on. -/
  | publishing (output : String)

namespace Operator

def name : Operator → String
  | .intake _ => "source"
  | .windowing _ => "window"
  | .joining _ => "join"
  | .merging _ => "union"
  | .reducing _ => "map_reduce"
  | .alerting _ => "alert"
  | .publishing _ => "sink"

/-- The operator of a node, at its start. -/
def ofNode (task node : String) (settings : Settings) : NodeKind → Operator
  | .source s => .intake ⟨s.filter⟩
  | .window w => .windowing (Windowing.new w.period w.every w.grouping settings.windowHorizon)
  | .join j =>
    .joining ⟨j.aliases, j.on, j.rename, j.name, j.horizon.getD settings.joinHorizon, ∅, 0⟩
  | .union u => .merging ⟨u.name, ∅⟩
  | .reduce r => .reducing (Reducing.ofNode r)
  | .alert a => .alerting (Alerting.new task node a settings.alertHistory)
  | .cache c => .publishing (c.name.getD node)
  | .output o => .publishing o.name

/-- Takes a batch from a port at the clock's time `now`. -/
def onBatch (op : Operator) (now : Instant) (port : Nat) (b : Batch) :
    Operator × Except StageFault Emitted :=
  match op with
  | .intake i => (op, (i.onBatch b).map fun r => .ofBatches r.toList)
  | .windowing w =>
    let (w, batches) := w.onBatch b
    (.windowing w, .ok (.ofBatches batches))
  | .joining j =>
    let (j, batch) := j.onBatch port b
    (.joining j, .ok (.ofBatches batch.toList))
  | .merging m => (.merging (m.onBatch port b), .ok .none)
  | .reducing r => (op, (r.onBatch b).map fun r => .ofBatches r.toList)
  | .alerting a =>
    let (a, alerts) := a.onBatch now b
    (.alerting a, alerts.map fun alerts => ⟨[b], alerts, []⟩)
  | .publishing output => (op, .ok ⟨[b], [], [(output, b)]⟩)

def onWatermark (op : Operator) (watermark : Instant) : Operator × Emitted :=
  match op with
  | .windowing w =>
    let (w, batches) := w.onWatermark watermark
    (.windowing w, .ofBatches batches)
  | .joining j => (.joining (j.onWatermark watermark), .none)
  | .merging m =>
    let (m, batches) := m.onWatermark watermark
    (.merging m, .ofBatches batches)
  | op => (op, .none)

def onClose (op : Operator) : Operator × Emitted :=
  match op with
  | .windowing w => (.windowing w.onClose, .none)
  | .joining j => (.joining j.onClose, .none)
  | .merging m =>
    let (m, batches) := m.onClose
    (.merging m, .ofBatches batches)
  | op => (op, .none)

end Operator

end SeriesPipeline
