import SeriesPipeline.Decimal.Binary

/-!
# The shortest decimal of a double

A finite double is `m * 2 ^ q`. The reals that round to it form an interval around it, with its
ends when `m` is even. `shortest` tries the grids of multiples of a power of ten from the coarsest
down and takes a point of the first grid that meets the interval, the one nearer to the value when
there are two.
-/

namespace SeriesPipeline.Decimal

/-- Which of two equally near decimals is taken. -/
inductive Tie where
  | up
  | even
  deriving DecidableEq

/-- `digits * 10 ^ exponent`. -/
structure Scaled where
  digits : Nat
  exponent : Int

/-- The gap below a power of two is half the gap above it, the smallest doubles apart. -/
def narrowBelow (m : Nat) (q : Int) : Bool := m = leadingBit && -1074 < q

/-- The point of the grid `10 ^ p` to take for `m * 2 ^ q`, if one rounds to it. All quantities
are scaled to integers: `grid` stands for `10 ^ p` and `unit` for a quarter of `2 ^ q`. -/
def onGrid? (tie : Tie) (m : Nat) (q p : Int) : Option Nat :=
  let grid := Nat.pow 10 p.toNat * Nat.pow 2 (2 - q).toNat
  let unit := Nat.pow 2 (q - 2).toNat * Nat.pow 10 (-p).toNat
  let value := 4 * m * unit
  let lo := (4 * m - if narrowBelow m q then 1 else 2) * unit
  let hi := (4 * m + 2) * unit
  let inside (x : Nat) : Bool := if m % 2 = 0 then lo ≤ x && x ≤ hi else lo < x && x < hi
  let below := value / grid
  let above := below + 1
  match decide (0 < below) && inside (below * grid), inside (above * grid) with
  | false, false => none
  | true, false => some below
  | false, true => some above
  | true, true =>
    let down := value - below * grid
    let up := above * grid - value
    if down < up then some below
    else if up < down then some above
    else match tie with
      | .up => some above
      | .even => some (if below % 2 = 0 then below else above)

/-- Searches the grids from `10 ^ p` down. -/
def shortestFrom (tie : Tie) (m : Nat) (q : Int) : Nat → Int → Scaled
  | 0, _ => ⟨0, 0⟩
  | fuel + 1, p =>
    match onGrid? tie m q p with
    | some d => ⟨d, p⟩
    | none => shortestFrom tie m q fuel (p - 1)

/-- A power of ten above `m * 2 ^ q`: 0.30103 is just over the decimal logarithm of two. -/
def magnitudeBound (m : Nat) (q : Int) : Int := (q + (Nat.log2 m + 1)) * 30103 / 100000 + 2

/-- Seventeen digits always suffice, so twenty-four grids from the bound down do. -/
def shortest (tie : Tie) (m : Nat) (q : Int) : Scaled :=
  if m = 0 then ⟨0, 0⟩ else shortestFrom tie m q 24 (magnitudeBound m q)

end SeriesPipeline.Decimal
