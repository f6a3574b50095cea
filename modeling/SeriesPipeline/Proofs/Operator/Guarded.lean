import SeriesPipeline.Proofs.Data.Guarded
import SeriesPipeline.Proofs.Operator.Percentile
import SeriesPipeline.Proofs.Operator.Shape

/-!
# Guarded operators

An operator in guarded form has an answer only if every position that it reads or writes is in
range and every divisor is positive. With what it has buffered in shape, and batches in shape, an
operator answers as it does in guarded form.
-/

namespace SeriesPipeline

/-! ## Joining -/

namespace Joining

/-- The `i`-th rows of all parts side by side, if all of them have one. -/
def combinedRow? (parts : List Batch) (i : Nat) : Option Row := do
  let rows ← parts.mapM (·.rows[i]?)
  return ⟨rows.foldl (fun t r => max t r.time) Instant.least, rows.flatMap (·.values)⟩

/-- `combine`, with rows of all parts, and with a first part to be named after. -/
def combine? (op : Joining) (key : Alignment) (parts : List Batch) : Option Batch := do
  let name ← match op.name with
    | some name => some name
    | none => parts[0]?.map (·.name)
  let columns := (op.aliases.zip parts).flatMap fun (owner, part) => qualified owner part.columns
  let length := ((parts.map (·.rows.length)).min?).getD 0
  let rows ← (List.range length).mapM (combinedRow? parts)
  return ⟨name, key.tags, columns, rows, some key.window⟩

/-- `onBatch`, with a slot for the port. -/
def onBatch? (op : Joining) (port : Nat) (b : Batch) : Option (Joining × Option Batch) :=
  match op.alignment? b with
  | none => some (op, none)
  | some key => do
    let slots := (op.pending.get? key).getD (List.replicate op.aliases.length none)
    let slots ← put? slots port (some b)
    match complete? slots with
    | some parts =>
      let joined ← op.combine? key parts
      return ({ op with pending := op.pending.erase key }, some joined)
    | none => return ({ op with pending := op.pending.insert key slots }.enforceHorizon, none)

variable {op : Joining} {key : Alignment} {parts : List Batch} {b : Batch} {port i : Nat}
  {distinct enclosed : Prop}

theorem combinedRow?_eq (hi : ∀ p ∈ parts, i < p.rows.length) :
    combinedRow? parts i = some (combinedRow parts i) := by
  have hrows : parts.mapM (·.rows[i]?) = some (parts.filterMap (·.rows[i]?)) := by
    rw [filterMap_rows_eq hi]
    refine mapM_eq_some_map fun p hp => ?_
    rw [getElem!_pos p.rows i (hi p hp), List.getElem?_eq_getElem (hi p hp)]
  rw [combinedRow?, hrows]
  rfl

theorem combine?_eq (h : parts ≠ []) : op.combine? key parts = some (op.combine key parts) := by
  have hlength : ((parts.map (·.rows.length)).min?).getD 0 =
      (op.combine key parts).rows.length := by
    rw [combine, List.length_map, List.length_range]
  have hrows : (List.range (((parts.map (·.rows.length)).min?).getD 0)).mapM
      (combinedRow? parts) = some (op.combine key parts).rows := by
    refine mapM_eq_some_map fun i hi => combinedRow?_eq ?_
    exact (lt_length_rows_combine_iff op key h).1 (hlength ▸ List.mem_range.1 hi)
  obtain ⟨first, rest, rfl⟩ := List.exists_cons_of_ne_nil h
  rw [combine?]
  dsimp only
  rw [hrows, combine]
  cases op.name <;> rfl

theorem aliases_onBatch (op : Joining) (port : Nat) (b : Batch) :
    (op.onBatch port b).1.aliases = op.aliases := by
  rw [onBatch]
  split
  · rfl
  · dsimp only
    split <;> rfl

/-- Every slot is one of a port, and a join that completes has parts. -/
theorem Shaped.onBatch? (h : op.Shaped enclosed) (hb : b.Fits distinct enclosed)
    (hport : port < op.aliases.length) : op.onBatch? port b = some (op.onBatch port b) := by
  rw [Joining.onBatch?, Joining.onBatch]
  cases hkey : op.alignment? b with
  | none => rfl
  | some key =>
    obtain ⟨w, hw, hheld⟩ := Option.map_eq_some_iff.1 hkey
    -- an alignment that is new has as many slots as one that waits
    have hbefore := h.pending.getD (shapedSlots_replicate enclosed _ key)
    have hslots := hbefore.set port (hheld ▸ hb.heldFor hw : b.HeldFor enclosed key.window)
    dsimp only
    rw [put?_eq (hport.trans_eq hbefore.length.symm)]
    dsimp only [Option.bind_eq_bind, Option.bind_some]
    cases hparts : complete? _ with
    | none => rfl
    | some parts =>
      have hne : parts ≠ [] := hslots.parts_ne_nil h.aliases hparts
      dsimp only
      rw [combine?_eq hne]
      rfl

/-- There is no slot for a port without an alias. -/
example : ((⟨["x"], [], ∅, none, 1, ∅, 0⟩ : Joining).onBatch? 1
    ⟨"m", ∅, [], [⟨.epoch, []⟩], none⟩).isNone = true := by rfl

end Joining

/-! ## Reducing -/

/-- `percentileOfBits`, with an element of the rank unless there is none at all. -/
def percentileOfBits? (xs : List UInt64) (p : Float) : Option (Option UInt64) :=
  if xs.isEmpty then some none
  else do
    let sorted := xs.mergeSort fun x y => decide (totalOrderKey x ≤ totalOrderKey y)
    let x ← sorted[percentileRank p xs.length]?
    return some x

theorem percentileOfBits?_eq (xs : List UInt64) (p : Float) :
    percentileOfBits? xs p = some (percentileOfBits xs p) := by
  rw [percentileOfBits?, percentileOfBits]
  by_cases h : xs = []
  · rw [h, List.mergeSort_nil]
    rfl
  · -- sorting keeps the length, so there is an element of the rank
    have hrank := percentileRank_lt p (List.length_pos_of_ne_nil h)
    have hsome : (xs.mergeSort fun x y => decide (totalOrderKey x ≤ totalOrderKey y))[
        percentileRank p xs.length]?.isSome := by
      rw [getElem?_pos _ _ (by rwa [List.length_mergeSort])]
      rfl
    obtain ⟨x, hx⟩ := Option.isSome_iff_exists.1 hsome
    rw [if_neg (by rwa [List.isEmpty_iff])]
    dsimp only
    rw [hx]
    rfl

namespace Reducing

/-- A result, which may be a fault, of a guarded computation. -/
abbrev Guarded := ExceptT StageFault Option

/-- What was computed without access to positions. -/
def Guarded.of {α : Type} (x : Except StageFault α) : Guarded α := ExceptT.mk (some x)

/-- `mapRow`, with a cell in the row where one is asked for. -/
def mapRow? (op : Reducing) (b : Batch) (index : Option Nat) (row : Row) :
    Guarded (Option Contribution) :=
  match op.map, index with
  | .count, some i => do
    let v ← (row.values[i]? : Option Value)
    return if !v.isNull then some (row.time, .float 1.0) else none
  | .identity, some i => do
    let v ← (row.values[i]? : Option Value)
    return if v.isNull then none else some (row.time, v)
  | _, _ => .of (op.mapRow b index row)

/-- `mapRows`, with a cell in every row where one is asked for. -/
def mapRows? (op : Reducing) (b : Batch) (index : Option Nat) :
    List Row → Guarded (List Contribution)
  | [] => pure []
  | row :: rest => do
    let c ← op.mapRow? b index row
    let cs ← mapRows? op b index rest
    return c.toList ++ cs

/-- `reduceRows`, with an element of the rank that a percentile asks for. -/
def reduceRows? (op : Reducing) (mapped : List Contribution) (time : Instant) :
    Guarded (List Row) :=
  match op.reduce with
  | .percentile p => do
    let xs ← Guarded.of (op.numbers mapped)
    let x ← percentileOfBits? (xs.map Float.toBits) p
    return (x.map fun x => (⟨time, [.float (Float.ofBits x)]⟩ : Row)).toList
  | _ => .of (op.reduceRows mapped time)

def onBatch? (op : Reducing) (b : Batch) : Guarded (Option Batch) :=
  match b.lastTime with
  | none => pure none
  | some time => do
    let index ← Guarded.of (op.fieldIndex b)
    let mapped ← op.mapRows? b index b.rows
    let rows ← op.reduceRows? mapped time
    return if rows.isEmpty then none
      else some ⟨b.name, b.tags, [op.column], rows, b.window⟩

variable {op : Reducing} {b : Batch} {index : Option Nat} {row : Row}

theorem Guarded.bind_of {α β : Type} (x : Except StageFault α) {f : α → Guarded β}
    {g : α → Except StageFault β} (h : ∀ a, x = .ok a → f a = .of (g a)) :
    (Guarded.of x >>= f) = .of (x >>= g) := by
  cases x with
  | error cause => rfl
  | ok a => exact h a rfl

theorem mapRow?_eq (h : ∀ i ∈ index, i < row.values.length) :
    op.mapRow? b index row = .of (op.mapRow b index row) := by
  unfold mapRow?
  split
  · rename_i i hmap
    have hcell := List.getElem?_eq_getElem (h i rfl)
    rw [mapRow, hmap, cell, hcell]
    rfl
  · rename_i i hmap
    have hcell := List.getElem?_eq_getElem (h i rfl)
    rw [mapRow, hmap, cell, hcell]
    rfl
  · rfl

theorem mapRows?_eq {rows : List Row} (h : ∀ row ∈ rows, ∀ i ∈ index, i < row.values.length) :
    op.mapRows? b index rows = .of (op.mapRows b index rows) := by
  induction rows with
  | nil => rfl
  | cons row rest ih =>
    obtain ⟨hrow, hrest⟩ := List.forall_mem_cons.1 h
    rw [mapRows?, mapRows, mapRow?_eq hrow, ih hrest]
    exact Guarded.bind_of _ fun c _ => Guarded.bind_of _ fun cs _ => rfl

theorem reduceRows?_eq (mapped : List Contribution) (time : Instant) :
    op.reduceRows? mapped time = .of (op.reduceRows mapped time) := by
  rw [reduceRows?]
  split
  · rename_i p hreduce
    rw [reduceRows, hreduce]
    refine Guarded.bind_of _ fun xs _ => ?_
    rw [percentileOfBits?_eq, ofNumbers?, percentile]
    cases percentileOfBits (xs.map Float.toBits) p <;> rfl
  · rfl

/-- A field that is found is a column, and every row has a value for it. -/
theorem lt_of_fieldIndex (hfield : op.fieldIndex b = .ok index) :
    ∀ i ∈ index, i < b.columns.length := by
  rw [fieldIndex] at hfield
  split at hfield
  · cases hfield
    exact nofun
  · split at hfield
    · rename_i i hi
      cases hfield
      rintro _ ⟨⟩
      exact (List.idxOf?_eq_some_iff.1 hi).1
    · cases hfield

theorem onBatch?_eq (h : b.Rectangular) : op.onBatch? b = .of (op.onBatch b) := by
  rw [onBatch?, onBatch]
  cases b.lastTime with
  | none => rfl
  | some time =>
    refine Guarded.bind_of _ fun index hindex => ?_
    rw [mapRows?_eq fun row hrow i hi => h row hrow ▸ lt_of_fieldIndex hindex i hi]
    refine Guarded.bind_of _ fun mapped _ => ?_
    rw [reduceRows?_eq]
    exact Guarded.bind_of _ fun rows _ => rfl

end Reducing

/-! ## Windowing -/

namespace Windowing

/-- `coveringEnds`, with windows that are apart. -/
def coveringEnds? (period every : Int) (t : Instant) : Option (List Instant) := do
  let before ← divide? t.toInt every
  let first := (before + 1) * every
  let last := min (t.toInt + period) Instant.greatest.toInt
  let steps ← divide? (last - first) every
  let count := if last < first then 0 else (steps + 1).toNat
  return (List.range count).map fun (k : Nat) => Instant.clamp (first + (k : Int) * every)

def addToPane? (panes : SortedMap Instant Panes) (key : SeriesKey) (columns : List String)
    (row : Row) (stop : Instant) : Option (SortedMap Instant Panes) := do
  let groups := (panes.get? stop).getD ∅
  let pane := (groups.get? key).getD ⟨key.name, key.tags, columns, [], none⟩
  let pane ← pane.pushAligned? columns row
  return panes.insert stop (groups.insert key pane)

def addRow? (key : SeriesKey) (columns : List String) (op : Windowing) (row : Row) :
    Option Windowing := do
  let covering ← coveringEnds? op.period.reach op.every.reach row.time
  let opened := covering.filter fun stop => !op.isClosed stop
  if covering.isEmpty then return { op with unwindowedRows := op.unwindowedRows + 1 }
  else if opened.isEmpty then return { op with lateRows := op.lateRows + 1 }
  else
    let panes ← opened.foldlM (fun panes stop => addToPane? panes key columns row stop) op.panes
    return { op with panes }

/-- `bucketWindow`, with buckets that are not empty. -/
def bucketWindow? (bucket : Span) (t : Instant) : Option Window := do
  let number ← divide? t.toInt bucket.reach
  let start := (Instant.ofInt? (number * bucket.reach)).getD Instant.least
  return ⟨start, start.after bucket⟩

def splitRows? (bucket : Span) (b : Batch) : List Row → Option (List Batch)
  | [] => some []
  | row :: rest => do
    let window ← bucketWindow? bucket row.time
    match ← splitRows? bucket b rest with
    | piece :: pieces =>
      return if piece.window.any (·.start = window.start) then
          { piece with rows := row :: piece.rows } :: pieces
        else { b with rows := [row], window := some window } :: piece :: pieces
    | [] => return [{ b with rows := [row], window := some window }]

/-- `flush`, with every row of a pane put in a bucket. -/
def flush? (op : Windowing) (stop : Instant) (groups : Panes) : Option (List Batch) := do
  let window : Window := ⟨stop.before op.period, stop⟩
  let pieces ← groups.values.mapM fun pane =>
    let sorted := pane.sortRows
    match op.grouping.bucket with
    | none => some [{ sorted with window := some window }]
    | some bucket => splitRows? bucket sorted sorted.rows
  return pieces.flatten

def flushAll? (op : Windowing) (ends : List (Instant × Panes)) : Option (List Batch) := do
  let flushed ← ends.mapM fun e => op.flush? e.1 e.2
  return flushed.flatten

def enforceHorizon? (op : Windowing) : Option (Windowing × List Batch) :=
  match op.horizon with
  | none => some (op, [])
  | some horizon => do
    let excess := op.panes.size - horizon
    let evicted := op.panes.toList.take excess
    let op := { op with panes := op.panes.keepLast horizon }
    let out ← op.flushAll? evicted
    return (evicted.foldl (fun op e => op.closeThrough e.1) op, out)

def onBatch? (op : Windowing) (b : Batch) : Option (Windowing × List Batch) := do
  let op ← b.rows.foldlM (addRow? (op.grouping.keyFor b) b.columns) op
  op.enforceHorizon?

def onWatermark? (op : Windowing) (watermark : Instant) : Option (Windowing × List Batch) := do
  let ready := op.panes.filter fun stop _ => decide (stop ≤ watermark)
  let rest := op.panes.filter fun stop _ => !decide (stop ≤ watermark)
  let out ← op.flushAll? ready.toList
  return ({ op with panes := rest }.closeThrough watermark, out)

variable {op : Windowing} {key : SeriesKey} {columns : List String} {row : Row} {b : Batch}
  {bucket : Span} {distinct : Prop}

theorem coveringEnds?_eq {period every : Int} (h : 0 < every) (t : Instant) :
    coveringEnds? period every t = some (coveringEnds period every t) := by
  rw [coveringEnds?, divide?_eq h]
  dsimp only [Option.bind_eq_bind, Option.bind_some]
  rw [divide?_eq h]
  rfl

theorem addToPane?_eq (panes : SortedMap Instant Panes) (key : SeriesKey) (columns : List String)
    (row : Row) (stop : Instant) :
    addToPane? panes key columns row stop = some (addToPane panes key columns row stop) := by
  rw [addToPane?, Batch.pushAligned?_eq]
  rfl

theorem addRow?_eq (h : 0 < op.every.reach) (key : SeriesKey) (columns : List String) (row : Row) :
    addRow? key columns op row = some (addRow key columns op row) := by
  have hpanes (stops : List Instant) :=
    foldlM_eq_some_foldl (fun _ : SortedMap Instant Panes => True)
      (fun panes stop _ => ⟨addToPane?_eq panes key columns row stop, trivial⟩)
      (l := stops) (s := op.panes) trivial
  rw [addRow?, coveringEnds?_eq h, addRow]
  dsimp only [Option.bind_eq_bind, Option.bind_some]
  rw [hpanes]
  split
  · rfl
  · split <;> rfl

/-- Rows are placed by the same divisor, whatever becomes of the panes. -/
theorem foldlM_addRow?_eq (h : 0 < op.every.reach) (key : SeriesKey) (columns : List String)
    (rows : List Row) :
    rows.foldlM (addRow? key columns) op = some (rows.foldl (addRow key columns) op) := by
  -- a row changes the panes and the counts, and never `every`
  refine foldlM_eq_some_foldl (fun op : Windowing => 0 < op.every.reach) (fun op row hevery => ?_) h
  obtain ⟨late, unwindowed, heq⟩ := addRow_eq key columns op row
  refine ⟨addRow?_eq hevery key columns row, ?_⟩
  rw [heq]
  exact hevery

theorem splitRows?_eq (h : 0 < bucket.reach) (b : Batch) (rows : List Row) :
    splitRows? bucket b rows = some (splitRows bucket b rows) := by
  have hwindow (t : Instant) : bucketWindow? bucket t = some (bucketWindow bucket t) := by
    rw [bucketWindow?, divide?_eq h, bucketWindow, bucketStart, Instant.floor, if_neg h.ne']
    rfl
  induction rows with
  | nil => rfl
  | cons row rest ih =>
    rw [splitRows?, splitRows, hwindow, ih]
    dsimp only [Option.bind_eq_bind, Option.bind_some]
    cases splitRows bucket b rest <;> rfl

section Buckets

variable (hbuckets : ∀ bucket ∈ op.grouping.bucket, 0 < bucket.reach)
include hbuckets

theorem flushAll?_eq (ends : List (Instant × Panes)) :
    op.flushAll? ends = some (op.flushAll ends) := by
  have hflush (e : Instant × Panes) : op.flush? e.1 e.2 = some (op.flush e.1 e.2) := by
    rw [flush?, flush, List.flatMap_def]
    dsimp only
    cases hbucket : op.grouping.bucket with
    | none =>
      rw [mapM_eq_some_map fun _ _ => rfl]
      rfl
    | some bucket =>
      rw [mapM_eq_some_map fun pane _ => splitRows?_eq (hbuckets bucket hbucket) pane.sortRows _]
      rfl
  rw [flushAll?, mapM_eq_some_map fun e _ => hflush e, flushAll, List.flatMap_def]
  rfl

theorem enforceHorizon?_eq : op.enforceHorizon? = some op.enforceHorizon := by
  rw [enforceHorizon?]
  split
  · rename_i hhorizon
    rw [enforceHorizon, hhorizon]
  · rename_i horizon hhorizon
    dsimp only
    rw [flushAll?_eq (by exact hbuckets), enforceHorizon_eq op hhorizon]
    rfl

end Buckets

section Steps

variable (h : op.Shaped distinct)
include h

theorem Shaped.onBatch? (b : Batch) : op.onBatch? b = some (op.onBatch b) := by
  obtain ⟨panes, late, unwindowed, heq⟩ :=
    foldl_addRow_eq (op.grouping.keyFor b) b.columns op b.rows
  rw [Windowing.onBatch?, foldlM_addRow?_eq h.every, Windowing.onBatch, heq]
  exact enforceHorizon?_eq h.buckets

theorem Shaped.onWatermark? (t : Instant) : op.onWatermark? t = some (op.onWatermark t) := by
  rw [Windowing.onWatermark?, flushAll?_eq h.buckets]
  rfl

end Steps

end Windowing

/-! ## Merging -/

namespace Merging

def pushRows? (out part : Batch) : Option Batch :=
  part.rows.foldlM (fun out row => out.pushAligned? part.columns row) out

def merge? (op : Merging) (key : Alignment) (parts : Parts) : Option Batch := do
  let sorted := parts.mergeSort fun p q => decide (p.1 ≤ q.1)
  let name := (op.name <|> sorted.head?.map (·.2.name)).getD ""
  let out : Batch := ⟨name, key.tags, [], [], some key.window⟩
  let out ← sorted.foldlM (fun out part => pushRows? out part.2) out
  return out.sortRows

def mergeAll? (op : Merging) (pending : SortedMap Alignment Parts) : Option (List Batch) :=
  pending.toList.mapM fun e => op.merge? e.1 e.2

def onWatermark? (op : Merging) (watermark : Instant) : Option (Merging × List Batch) := do
  let ready := op.pending.filter fun key _ => decide (key.window.stop ≤ watermark)
  let rest := op.pending.filter fun key _ => !decide (key.window.stop ≤ watermark)
  let out ← op.mergeAll? ready
  return ({ op with pending := rest }, out)

def onClose? (op : Merging) : Option (Merging × List Batch) := do
  let out ← op.mergeAll? op.pending
  return ({ op with pending := ∅ }, out)

variable {op : Merging}

theorem pushRows?_eq (out part : Batch) : pushRows? out part = some (pushRows out part) :=
  foldlM_eq_some_foldl (fun _ => True)
    (fun out row _ => ⟨out.pushAligned?_eq part.columns row, trivial⟩) trivial

theorem merge?_eq (key : Alignment) (parts : Parts) :
    op.merge? key parts = some (op.merge key parts) := by
  rw [merge?, foldlM_eq_some_foldl (fun _ => True)
    (fun out part _ => ⟨pushRows?_eq out part.2, trivial⟩) trivial]
  rfl

theorem mergeAll?_eq (pending : SortedMap Alignment Parts) :
    op.mergeAll? pending = some (op.mergeAll pending) :=
  mapM_eq_some_map fun e _ => merge?_eq e.1 e.2

theorem onWatermark?_eq (op : Merging) (t : Instant) :
    op.onWatermark? t = some (op.onWatermark t) := by
  rw [onWatermark?, mergeAll?_eq]
  rfl

theorem onClose?_eq (op : Merging) : op.onClose? = some op.onClose := by
  rw [onClose?, mergeAll?_eq]
  rfl

end Merging

/-! ## Operators -/

namespace Operator

/-- `onBatch` in guarded form. -/
def onBatch? (op : Operator) (now : Instant) (port : Nat) (b : Batch) :
    Option (Operator × Except StageFault Emitted) :=
  match op with
  | .windowing w => do
    let (w, batches) ← w.onBatch? b
    return (.windowing w, .ok (.ofBatches batches))
  | .joining j => do
    let (j, batch) ← j.onBatch? port b
    return (.joining j, .ok (.ofBatches batch.toList))
  | .reducing r => do
    let result ← (r.onBatch? b).run
    return (op, result.map fun r => .ofBatches r.toList)
  | op => some (op.onBatch now port b)

/-- `onWatermark` in guarded form. -/
def onWatermark? (op : Operator) (watermark : Instant) : Option (Operator × Emitted) :=
  match op with
  | .windowing w => do
    let (w, batches) ← w.onWatermark? watermark
    return (.windowing w, .ofBatches batches)
  | .merging m => do
    let (m, batches) ← m.onWatermark? watermark
    return (.merging m, .ofBatches batches)
  | op => some (op.onWatermark watermark)

/-- `onClose` in guarded form. -/
def onClose? (op : Operator) : Option (Operator × Emitted) :=
  match op with
  | .merging m => do
    let (m, batches) ← m.onClose?
    return (.merging m, .ofBatches batches)
  | op => some op.onClose

/-- A join has an alias for each of its ports. -/
def HasPorts (ports : Nat) : Operator → Prop
  | .joining j => ports ≤ j.aliases.length
  | _ => True

variable {op : Operator} {ports port : Nat} {b : Batch} {distinct enclosed : Prop}

theorem hasPorts_answer (op : Operator) (now : Instant) (r : Request) :
    (op.answer now r).1.HasPorts ports = op.HasPorts ports := by
  cases op with
  | joining j =>
    cases r with
    | batch port b => exact congrArg (ports ≤ ·.length) (j.aliases_onBatch port b)
    | _ => rfl
  | _ => cases r <;> rfl

theorem onClose?_eq (op : Operator) : op.onClose? = some op.onClose := by
  cases op with
  | merging m =>
    rw [onClose?, m.onClose?_eq]
    rfl
  | _ => rfl

section Shaped

variable (h : op.Shaped distinct enclosed)
include h

theorem Shaped.onBatch? (hports : op.HasPorts ports) (hport : port < ports)
    (hb : op.Suits distinct enclosed b) (now : Instant) :
    op.onBatch? now port b = some (op.onBatch now port b) := by
  cases op with
  | windowing w =>
    rw [Operator.onBatch?, Windowing.Shaped.onBatch? h]
    rfl
  | joining j =>
    rw [Operator.onBatch?, Joining.Shaped.onBatch? h hb (lt_of_lt_of_le hport hports)]
    rfl
  | reducing r =>
    rw [Operator.onBatch?, Reducing.onBatch?_eq (Batch.Fits.wellFormed hb).width]
    rfl
  | _ => rfl

theorem Shaped.onWatermark? (t : Instant) : op.onWatermark? t = some (op.onWatermark t) := by
  cases op with
  | windowing w =>
    rw [Operator.onWatermark?, Windowing.Shaped.onWatermark? h]
    rfl
  | merging m =>
    rw [Operator.onWatermark?, m.onWatermark?_eq]
    rfl
  | _ => rfl

end Shaped

end Operator

end SeriesPipeline
