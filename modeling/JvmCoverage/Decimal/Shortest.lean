/-!
# Shortest decimals

A binary floating-point number stands for all reals that round to it.  `Shortest.ofBits` finds
the decimal with the fewest digits among them, and of those the nearest to the number.  The
search goes from coarse decimal grids to fine ones and looks only at the two neighbours of the
number on each grid, in exact arithmetic.
-/

namespace JvmCoverage.Decimal

/-- The number `digits` times ten to the power `exponent`. -/
structure Scaled where
  digits : Nat
  exponent : Int
  deriving DecidableEq

/-- A positive number and the bounds of the reals that round to it, all times two to the power
`exponent`. -/
structure Binary where
  value : Nat
  lower : Nat
  upper : Nat
  exponent : Int
  /-- Whether the bounds themselves round to the number. -/
  closed : Bool

namespace Binary

/-- The number with the given exponent field and fraction field of a double. -/
def ofFields (exponentField fraction : Nat) : Binary :=
  let mantissa := if exponentField = 0 then fraction else 0x10000000000000 + fraction
  let below := if fraction = 0 ∧ 1 < exponentField then 1 else 2
  { value := 4 * mantissa
    lower := 4 * mantissa - below
    upper := 4 * mantissa + 2
    exponent := Int.ofNat (max exponentField 1) - 1077
    closed := mantissa % 2 = 0 }

/-- A multiple of the binary unit on the scale where a point of the decimal grid `j` is a
multiple of `gridScale`. -/
def binaryScale (b : Binary) (j : Int) (multiple : Nat) : Nat :=
  multiple * Nat.pow 2 b.exponent.toNat * Nat.pow 10 (-j).toNat

/-- A point of the grid of multiples of ten to the power `j`, on the same scale. -/
def gridScale (b : Binary) (j : Int) (multiple : Nat) : Nat :=
  multiple * Nat.pow 10 j.toNat * Nat.pow 2 (-b.exponent).toNat

/-- Whether a point of the grid rounds to the number. -/
def admits (b : Binary) (j : Int) (point : Nat) : Bool :=
  let p := b.gridScale j point
  let lower := b.binaryScale j b.lower
  let upper := b.binaryScale j b.upper
  if b.closed then lower ≤ p && p ≤ upper else lower < p && p < upper

/-- The neighbour on the grid that rounds to the number, and the nearer one if both do. -/
def onGrid? (b : Binary) (j : Int) : Option Nat :=
  let value := b.binaryScale j b.value
  let unit := b.gridScale j 1
  let low := value / unit
  let rest := value % unit
  let high := low + 1
  let lowNearer := 2 * rest < unit || (2 * rest == unit && low % 2 == 0)
  match b.admits j low, b.admits j high with
  | true, true => some (if lowNearer then low else high)
  | true, false => some low
  | false, true => some high
  | false, false => none

/-- The first hit on the grids from ten to the power `steps - 344` downwards. -/
def search (b : Binary) : (steps : Nat) → Option Scaled
  | 0 => none
  | steps + 1 =>
    let j := Int.ofNat steps - 343
    match b.onGrid? j with
    | some digits => some ⟨digits, j⟩
    | none => search b steps

end Binary

/-- The shortest decimal that rounds to the double with the given bits, sign aside; none for 0
and for what is not a number. -/
def shortest? (bits : UInt64) : Option Scaled :=
  let exponentField := (bits >>> 52).toNat % 2048
  let fraction := bits.toNat % 0x10000000000000
  if exponentField = 2047 ∨ (exponentField = 0 ∧ fraction = 0) then none
  else (Binary.ofFields exponentField fraction).search 654

end JvmCoverage.Decimal
