/-!
# Tables of code point ranges

A character property is given as an array of closed ranges in increasing order and looked up by
halving.
-/

namespace SeriesPipeline.Text

/-- First and last code point. -/
abbrev CodeRange := Nat × Nat

/-- Whether `c` lies in one of the ranges with an index from `lo` up to, not including, `hi`. -/
def inRangesBetween (table : Array CodeRange) (c : Nat) (lo hi : Nat) : Bool :=
  if lo < hi then
    let mid := (lo + hi) / 2
    match table[mid]? with
    | none => false
    | some (first, last) =>
      if c < first then inRangesBetween table c lo mid
      else if last < c then inRangesBetween table c (mid + 1) hi
      else true
  else false
termination_by hi - lo

def inRanges (table : Array CodeRange) (c : Char) : Bool :=
  inRangesBetween table c.toNat 0 table.size

end SeriesPipeline.Text
