import Segmentation.Decimal.Basic

/-!
The fewest decimal digits that determine a double. The reals that round to a double form an
interval around it, which contains its own ends exactly when the rank is even. Among the grids of
multiples of a power of ten, the coarsest one with a point in that interval is taken, and on it the
point nearest to the double.

Everything is counted in half units divided by `10 ^ 1074`, so that no grid needs a fraction: grid
`level` holds the multiples of `10 ^ (level - 1074)`. Grid zero contains every double.
-/

set_option autoImplicit false

namespace Segmentation.Decimal

/-- Which of two equally near neighbours is taken. -/
inductive Tie where
  | up
  | even
  deriving DecidableEq

/-- The resolution in which magnitudes and grids are compared. -/
def resolution : Nat := Nat.pow 10 1074

/-- The distance between neighbours on a grid. -/
def gridStep (level : Nat) : Nat := Nat.pow 10 level * (2 * Binary64.unitsPerOne)

/-- The magnitude of a rank. -/
def middle (rank : Nat) : Nat := 2 * Binary64.units rank * resolution

/-- The lower end of the interval of a rank: half way to the rank below. -/
def lowerEnd (rank : Nat) : Nat :=
  (Binary64.units (rank - 1) + Binary64.units rank) * resolution

/-- The upper end of the interval of a rank: half way to the rank above. -/
def upperEnd (rank : Nat) : Nat :=
  (Binary64.units rank + Binary64.units (rank + 1)) * resolution

/-- Whether a magnitude rounds to a rank. -/
def roundsTo (rank magnitude : Nat) : Bool :=
  if rank % 2 = 0 then lowerEnd rank ≤ magnitude && magnitude ≤ upperEnd rank
  else lowerEnd rank < magnitude && magnitude < upperEnd rank

/-- The grid point that stands for a rank on a grid, if one of the two neighbours of the rank
does. -/
def gridPoint? (tie : Tie) (rank level : Nat) : Option Nat :=
  let step := gridStep level
  let below := middle rank / step
  let twice := 2 * (middle rank % step)
  let lower := roundsTo rank (below * step)
  let upper := roundsTo rank ((below + 1) * step)
  if lower && upper then
    let takesLower := twice < step || (twice == step && tie == .even && below % 2 == 0)
    some (if takesLower then below else below + 1)
  else if lower then some below
  else if upper then some (below + 1)
  else none

/-- The first grid point found on the way down from a grid; on grid zero it is the rank itself. -/
def shortestFrom (tie : Tie) (rank : Nat) : Nat → Nat × Nat
  | 0 => (middle rank / gridStep 0, 0)
  | level + 1 =>
    match gridPoint? tie rank (level + 1) with
    | some point => (point, level + 1)
    | none => shortestFrom tie rank level

/-- A grid from which no coarser one needs to be looked at. The estimate from the number of bits
is used if its first multiple already lies past the interval. -/
def startLevel (rank : Nat) : Nat :=
  let estimate := ((Binary64.units rank).log2 * 30103 + 75199481) / 100000
  if upperEnd rank < gridStep estimate then estimate else 1384

/-- The shortest decimal of a magnitude, with a sign. -/
def shortest (tie : Tie) (negative : Bool) (rank : Nat) : Decimal :=
  let found := shortestFrom tie rank (startLevel rank)
  ⟨negative, found.1, (found.2 : Int) - 1074⟩

end Segmentation.Decimal
