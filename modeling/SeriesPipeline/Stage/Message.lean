import SeriesPipeline.Data.Batch

/-!
# Messages between stages
-/

namespace SeriesPipeline

inductive Message where
  | batch (b : Batch)
  /-- Nothing earlier than `t` follows. -/
  | barrier (t : Instant)
  /-- Nothing follows. -/
  | close

namespace Message

def isClose : Message → Bool
  | .close => true
  | _ => false

def batch? : Message → Option Batch
  | .batch b => some b
  | _ => none

def barrier? : Message → Option Instant
  | .barrier t => some t
  | _ => none

end Message

/-- A message with the port of the stage that it goes to. -/
structure Envelope where
  port : Nat
  message : Message

end SeriesPipeline
