/-!
# Doubles as scaled integers

A finite double is a sign and `m * 2 ^ q`. Rounding to integers and remainders are computed on `m`
and `q`, so they are exact.
-/

namespace SeriesPipeline.Decimal

/-- A double by its sign and value. -/
inductive Binary where
  | nan
  | infinite (negative : Bool)
  | finite (negative : Bool) (m : Nat) (q : Int)

/-- The first bit of `m` for all but the smallest doubles, `2 ^ 52`. The bits below it are the
fraction, and the exponent stands above it. -/
def leadingBit : Nat := 4503599627370496

/-- How many exponents there are. -/
def exponentCount : Nat := 2048

/-- The sign stands above the exponent. -/
def signBit : Nat := leadingBit * exponentCount

def Binary.ofFloat (x : Float) : Binary :=
  let bits := x.toBits.toNat
  let negative : Bool := decide (signBit ≤ bits)
  let biased : Nat := bits / leadingBit % exponentCount
  let fraction : Nat := bits % leadingBit
  if biased = 2047 then
    if fraction = 0 then .infinite negative else .nan
  else if biased = 0 then .finite negative fraction (-1074)
  else .finite negative (leadingBit + fraction) ((biased : Int) - 1075)

/-- The double `m * 2 ^ q`, for an `m` below `2 ^ 53` and a `q` of at least -1074. -/
def Binary.toFloat (negative : Bool) (m : Nat) (q : Int) : Float :=
  let shift := min (52 - Nat.log2 m) (q + 1074).toNat
  let m' := m * Nat.pow 2 shift
  let magnitude :=
    if m' < leadingBit then m'
    else (q - shift + 1075).toNat * leadingBit + (m' - leadingBit)
  Float.ofBits (UInt64.ofNat (if negative then signBit + magnitude else magnitude))

/-- The remainder of `x` by `y`, with the sign of `x`. -/
def remainder (x y : Float) : Float :=
  match Binary.ofFloat x, Binary.ofFloat y with
  | .finite negative m q, .finite _ n r =>
    if n = 0 then 0.0 / 0.0
    else
      let s := min q r
      Binary.toFloat negative
        (m * Nat.pow 2 (q - s).toNat % (n * Nat.pow 2 (r - s).toNat)) s
  | .finite .., .infinite _ => x
  | _, _ => 0.0 / 0.0

/-- The least integer that is not below `x`; none for NaN and the infinities. -/
def ceil? (x : Float) : Option Int :=
  match Binary.ofFloat x with
  | .finite negative m q =>
    let n : Int := if negative then -(m : Int) else m
    some (if 0 ≤ q then n * Nat.pow 2 q.toNat else -((-n) / Nat.pow 2 (-q).toNat))
  | _ => none

end SeriesPipeline.Decimal
