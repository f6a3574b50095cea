import SeriesPipeline.Operator.Basic

/-!
# Counters of a stage
-/

namespace SeriesPipeline

structure Stats where
  batchesIn : Nat
  batchesOut : Nat
  lateRows : Nat
  unwindowedRows : Nat
  droppedWindows : Nat
  alertsSent : Nat
  alertsSuppressed : Nat
  deriving DecidableEq

namespace Operator

def lateRows : Operator → Nat
  | .windowing w => w.lateRows
  | _ => 0

def unwindowedRows : Operator → Nat
  | .windowing w => w.unwindowedRows
  | _ => 0

def droppedWindows : Operator → Nat
  | .joining j => j.dropped
  | _ => 0

def alertsSent : Operator → Nat
  | .alerting a => a.sent
  | _ => 0

def alertsSuppressed : Operator → Nat
  | .alerting a => a.suppressed
  | _ => 0

/-- The counters of an operator that was given and has passed on so many batches. -/
def stats (op : Operator) (batchesIn batchesOut : Nat) : Stats :=
  ⟨batchesIn, batchesOut, op.lateRows, op.unwindowedRows, op.droppedWindows, op.alertsSent,
    op.alertsSuppressed⟩

/-- How many window ends are open, or alignments incomplete. -/
def pending? : Operator → Option Nat
  | .windowing w => some w.panes.size
  | .joining j => some j.pending.size
  | _ => none

end Operator

end SeriesPipeline
