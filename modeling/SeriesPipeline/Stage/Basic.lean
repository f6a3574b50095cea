import SeriesPipeline.Stage.Failure
import SeriesPipeline.Stage.Message
import SeriesPipeline.Stage.Stats
import SeriesPipeline.Stage.Watermarks

/-!
# Stages

A stage takes envelopes one at a time, lets its operator work on them, and sends what comes out on
every outlet alike. A watermark is passed on as a barrier after the batches that the operator emits
for it. A stage ends when all its ports have closed, when its inbox ends, or by a failure, and
whichever it is, the last message it sends is a close.
-/

namespace SeriesPipeline

structure Stage where
  id : String
  operator : Operator
  marks : Watermarks
  batchesIn : Nat
  batchesOut : Nat

/-- What a stage gives out on an envelope. -/
structure Reaction where
  sent : List Message
  alerts : List Alert
  published : List (String × Batch)

namespace Reaction

def none : Reaction := ⟨[], [], []⟩

def append (r s : Reaction) : Reaction :=
  ⟨r.sent ++ s.sent, r.alerts ++ s.alerts, r.published ++ s.published⟩

instance : Append Reaction := ⟨append⟩

end Reaction

/-- Where a stage stands after an envelope. -/
inductive Progress where
  | running
  | finished
  | failed (cause : Failure)

namespace Stage

def new (id : String) (operator : Operator) (ports : Nat) : Stage :=
  ⟨id, operator, .new ports, 0, 0⟩

def stats (s : Stage) : Stats := s.operator.stats s.batchesIn s.batchesOut

def emit (s : Stage) (operator : Operator) (out : Emitted) : Stage × Reaction :=
  ({ s with operator, batchesOut := s.batchesOut + out.batches.length },
    ⟨out.batches.map .batch, out.alerts, out.published⟩)

/-- Passes a new watermark on, if there is one, once the operator has answered it. -/
def advance (s : Stage) : Option Instant → Stage × Reaction
  | none => (s, .none)
  | some mark =>
    let (operator, out) := s.operator.onWatermark mark
    let (s, reaction) := s.emit operator out
    (s, reaction ++ ⟨[.barrier mark], [], []⟩)

/-- The operator's last words. -/
def finish (s : Stage) : Stage × Reaction :=
  let (operator, out) := s.operator.onClose
  s.emit operator out

def takeBatch (s : Stage) (now : Instant) (port : Nat) (b : Batch) :
    Stage × Reaction × Progress :=
  let s := { s with batchesIn := s.batchesIn + 1 }
  match s.operator.onBatch now port b with
  | (operator, .ok out) =>
    let (s, reaction) := s.emit operator out
    (s, reaction, .running)
  | (operator, .error cause) => ({ s with operator }, .none, .failed (.stage s.id cause))

def takeBarrier (s : Stage) (port : Nat) (t : Instant) : Stage × Reaction × Progress :=
  let (marks, mark) := s.marks.observe port t
  let (s, reaction) := { s with marks }.advance mark
  (s, reaction, .running)

def takeClose (s : Stage) (port : Nat) : Stage × Reaction × Progress :=
  let (marks, mark) := s.marks.close port
  let (s, reaction) := { s with marks }.advance mark
  if s.marks.allClosed then
    let (s, last) := s.finish
    (s, reaction ++ last, .finished)
  else (s, reaction, .running)

/-- Takes one envelope at the clock's time `now`. A port that has closed takes no more. -/
def receive (s : Stage) (now : Instant) (e : Envelope) : Stage × Reaction × Progress :=
  match s.marks.ports[e.port]? with
  | none => (s, .none, .failed (.unknownPort s.id e.port))
  | some port =>
    if port.isOpen then
      match e.message with
      | .batch b => s.takeBatch now e.port b
      | .barrier t => s.takeBarrier e.port t
      | .close => s.takeClose e.port
    else (s, .none, .running)

/-- Takes all of an inbox, as far as the stage gets. -/
def process (now : Instant) (s : Stage) : List Envelope → Stage × Reaction × Option Failure
  | [] =>
    let (s, reaction) := s.finish
    (s, reaction, none)
  | e :: rest =>
    match s.receive now e with
    | (s, reaction, .running) =>
      let (s, later, failure) := process now s rest
      (s, reaction ++ later, failure)
    | (s, reaction, .finished) => (s, reaction, none)
    | (s, reaction, .failed cause) => (s, reaction, some cause)

/-- The whole life of a stage whose inbox is given. -/
def run (now : Instant) (s : Stage) (inbox : List Envelope) : Stage × Reaction × Option Failure :=
  let (s, reaction, failure) := process now s inbox
  (s, reaction ++ ⟨[.close], [], []⟩, failure)

end Stage

end SeriesPipeline
