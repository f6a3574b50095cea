import SeriesPipeline.Operator.Alignment

/-!
# Merging

A union holds the batches of an alignment until its window is over, and then emits all their rows as
one batch in order of time. Rows of one time stand in order of ports, and then of arrival.
-/

namespace SeriesPipeline

/-- The batches of an alignment with their ports, in order of arrival. -/
abbrev Parts := List (Nat × Batch)

structure Merging where
  name : Option String
  pending : SortedMap Alignment Parts

namespace Merging

def pushRows (out part : Batch) : Batch :=
  part.rows.foldl (fun out row => out.pushAligned part.columns row) out

def merge (op : Merging) (key : Alignment) (parts : Parts) : Batch :=
  let sorted := parts.mergeSort fun p q => decide (p.1 ≤ q.1)
  let name := (op.name <|> sorted.head?.map (·.2.name)).getD ""
  let out : Batch := ⟨name, key.tags, [], [], some key.window⟩
  (sorted.foldl (fun out part => pushRows out part.2) out).sortRows

def mergeAll (op : Merging) (pending : SortedMap Alignment Parts) : List Batch :=
  pending.toList.map fun e => op.merge e.1 e.2

def onBatch (op : Merging) (port : Nat) (b : Batch) : Merging :=
  match b.alignmentWindow with
  | none => op
  | some window =>
    let key : Alignment := ⟨window, b.tags⟩
    let parts := (op.pending.get? key).getD []
    { op with pending := op.pending.insert key (parts ++ [(port, b)]) }

def onWatermark (op : Merging) (watermark : Instant) : Merging × List Batch :=
  let ready := op.pending.filter fun key _ => decide (key.window.stop ≤ watermark)
  let rest := op.pending.filter fun key _ => !decide (key.window.stop ≤ watermark)
  ({ op with pending := rest }, op.mergeAll ready)

def onClose (op : Merging) : Merging × List Batch :=
  ({ op with pending := ∅ }, op.mergeAll op.pending)

end Merging

end SeriesPipeline
