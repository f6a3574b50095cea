import SeriesPipeline.Proofs.Data.AlignedRows

/-!
# Guarded access

A guarded computation looks up every position that it reads or writes and tests every divisor. It
has no result where a position is out of range or a divisor is not positive. While all the steps of
a map or of a fold have results, so has the whole.
-/

namespace SeriesPipeline

variable {α β σ : Type}

/-- The quotient by a positive divisor. -/
def divide? (n d : Int) : Option Int := if 0 < d then some (n / d) else none

/-- The list with another element at one of its positions. -/
def put? (l : List α) (i : Nat) (a : α) : Option (List α) :=
  if i < l.length then some (l.set i a) else none

theorem divide?_eq {n d : Int} (h : 0 < d) : divide? n d = some (n / d) := if_pos h

theorem put?_eq {l : List α} {i : Nat} (h : i < l.length) (a : α) :
    put? l i a = some (l.set i a) :=
  if_pos h

theorem mapM_eq_some_map {f : α → Option β} {g : α → β} {l : List α}
    (h : ∀ a ∈ l, f a = some (g a)) : l.mapM f = some (l.map g) := by
  induction l with
  | nil => rfl
  | cons a rest ih =>
    obtain ⟨ha, hrest⟩ := List.forall_mem_cons.1 h
    rw [List.mapM_cons, ha, ih hrest]
    rfl

/-- The steps have results while the state keeps an invariant. -/
theorem foldlM_eq_some_foldl (Inv : σ → Prop) {f : σ → α → Option σ} {g : σ → α → σ} {l : List α}
    {s : σ} (hstep : ∀ s a, Inv s → f s a = some (g s a) ∧ Inv (g s a)) (hs : Inv s) :
    l.foldlM f s = some (l.foldl g s) := by
  induction l generalizing s with
  | nil => rfl
  | cons a rest ih =>
    obtain ⟨hresult, hnext⟩ := hstep s a hs
    rw [List.foldlM_cons, hresult, List.foldl_cons]
    exact ih hnext

namespace Batch

/-! ## Appending rows -/

/-- Puts a cell under the column of its name, if there is one. -/
def setCell? (columns : List String) (values : List Value) (cell : String × Value) :
    Option (List Value) :=
  match columns.idxOf? cell.1 with
  | some i => put? values i cell.2
  | none => some values

/-- `layOut`, with every cell put where there is a value. -/
def layOut? (columns : List String) (cells : List (String × Value)) : Option (List Value) :=
  cells.foldlM (setCell? columns) (List.replicate columns.length .null)

/-- `pushAligned`, with every cell put where there is a value. -/
def pushAligned? (b : Batch) (columns : List String) (row : Row) : Option Batch :=
  if columns = b.columns then some { b with rows := b.rows ++ [row] }
  else do
    let widened := addColumns b.columns columns
    let added := widened.length - b.columns.length
    let values ← layOut? widened (columns.zip row.values)
    return { b with
      columns := widened
      rows := b.rows.map (Row.widen · added) ++ [⟨row.time, values⟩] }

theorem setCell?_eq {columns : List String} {values : List Value}
    (h : values.length = columns.length) (cell : String × Value) :
    setCell? columns values cell = some (setCell columns values cell) := by
  rw [setCell?, setCell]
  cases hi : columns.idxOf? cell.1 with
  | none => rfl
  | some i => exact put?_eq (h ▸ (List.idxOf?_eq_some_iff.1 hi).1) _

/-- There is a value for every column, so each cell has its place. -/
theorem layOut?_eq (columns : List String) (cells : List (String × Value)) :
    layOut? columns cells = some (layOut columns cells) := by
  refine foldlM_eq_some_foldl (fun values => values.length = columns.length)
    (fun values cell h => ⟨setCell?_eq h cell, ?_⟩) List.length_replicate
  exact (length_setCell columns values cell).trans h

theorem pushAligned?_eq (b : Batch) (columns : List String) (row : Row) :
    b.pushAligned? columns row = some (b.pushAligned columns row) := by
  rw [pushAligned?, pushAligned]
  split
  · rfl
  · dsimp only
    rw [layOut?_eq]
    rfl

end Batch

end SeriesPipeline
