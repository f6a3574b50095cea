import SeriesPipeline.Operator.Fault

/-!
# Intake

The first stage of a source checks each batch and keeps the rows that its filter lets through.
-/

namespace SeriesPipeline

structure Intake where
  filter : Option Formula

namespace Intake

/-- The rows for which the filter holds. Every row is looked at before any is dropped. -/
def keepRows (f : Formula) (b : Batch) : List Row → Except StageFault (List Row)
  | [] => .ok []
  | row :: rest => do
    let keep ← f.holdsIn b row
    let rows ← keepRows f b rest
    return if keep then row :: rows else rows

/-- The batch to pass on, unless no row is left. -/
def onBatch (op : Intake) (b : Batch) : Except StageFault (Option Batch) :=
  match b.checkConsistency with
  | .error cause => .error (.inconsistent cause)
  | .ok () => do
    let rows ← match op.filter with
      | some f => keepRows f b b.rows
      | none => .ok b.rows
    return if rows.isEmpty then none else some { b with rows := rows }

end Intake

end SeriesPipeline
