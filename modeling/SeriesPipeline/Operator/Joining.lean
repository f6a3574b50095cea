import SeriesPipeline.Blueprint.Grouping
import SeriesPipeline.Operator.Alignment

/-!
# Joining

A join waits for one batch of every port for the same alignment and puts them side by side, the
columns named after their port's alias. What does not complete in time is dropped and counted.
-/

namespace SeriesPipeline

/-- The latest batch of each port. -/
abbrev Slots := List (Option Batch)

structure Joining where
  aliases : List String
  on : List String
  rename : Tags
  name : Option String
  /-- How many incomplete alignments are kept. -/
  horizon : Nat
  pending : SortedMap Alignment Slots
  /-- Alignments dropped before they were complete. -/
  dropped : Nat

namespace Joining

def renamed (rename : Tags) (tags : Tags) : Tags :=
  SortedMap.ofList (tags.toList.map fun e => ((rename.get? e.1).getD e.1, e.2))

/-- Where a batch belongs: its window and its tags, renamed and cut to those joined on. -/
def alignment? (op : Joining) (b : Batch) : Option Alignment :=
  b.alignmentWindow.map fun window => ⟨window, projectTags (renamed op.rename b.tags) op.on⟩

def qualified (owner : String) (columns : List String) : List String :=
  columns.map fun c => owner ++ "." ++ c

/-- The `i`-th rows of all parts side by side, at the latest of their times. -/
def combinedRow (parts : List Batch) (i : Nat) : Row :=
  let rows := parts.filterMap (·.rows[i]?)
  ⟨rows.foldl (fun t r => max t r.time) Instant.least, rows.flatMap (·.values)⟩

/-- The parts side by side, as long as the shortest of them. -/
def combine (op : Joining) (key : Alignment) (parts : List Batch) : Batch :=
  let first := (parts.head?.map (·.name)).getD ""
  let columns := (op.aliases.zip parts).flatMap fun (owner, part) => qualified owner part.columns
  let length := ((parts.map (·.rows.length)).min?).getD 0
  ⟨op.name.getD first, key.tags, columns, (List.range length).map (combinedRow parts),
    some key.window⟩

/-- Drops the smallest pending alignments while there are more than the horizon. -/
def enforceHorizon (op : Joining) : Joining :=
  let excess := op.pending.size - op.horizon
  { op with pending := op.pending.keepLast op.horizon, dropped := op.dropped + excess }

/-- The parts when every slot is filled. -/
def complete? (slots : Slots) : Option (List Batch) := slots.mapM id

def onBatch (op : Joining) (port : Nat) (b : Batch) : Joining × Option Batch :=
  match op.alignment? b with
  | none => (op, none)
  | some key =>
    let slots := (op.pending.get? key).getD (List.replicate op.aliases.length none)
    let slots := slots.set port (some b)
    match complete? slots with
    | some parts => ({ op with pending := op.pending.erase key }, some (op.combine key parts))
    | none => ({ op with pending := op.pending.insert key slots }.enforceHorizon, none)

/-- Drops the alignments whose window is over. -/
def onWatermark (op : Joining) (watermark : Instant) : Joining :=
  let rest := op.pending.filter fun key _ => decide (watermark < key.window.stop)
  { op with pending := rest, dropped := op.dropped + (op.pending.size - rest.size) }

def onClose (op : Joining) : Joining :=
  { op with pending := ∅, dropped := op.dropped + op.pending.size }

end Joining

end SeriesPipeline
