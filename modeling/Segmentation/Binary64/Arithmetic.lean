import Segmentation.Binary64.Rounding

/-!
Arithmetic on doubles: each operation is the exact one followed by one rounding. Infinities and
NaNs follow the number line where it has an answer; where it has none the result is NaN.
-/

set_option autoImplicit false

namespace Segmentation.Binary64

/-- The product; zero times infinity is NaN. -/
def mul : Binary64 → Binary64 → Binary64
  | .nan, _ => .nan
  | _, .nan => .nan
  | .infinite a, .infinite b => .infinite (a ^^ b)
  | .infinite a, .finite b rank => if rank.val = 0 then .nan else .infinite (a ^^ b)
  | .finite a rank, .infinite b => if rank.val = 0 then .nan else .infinite (a ^^ b)
  | .finite a x, .finite b y => ofUnits (a ^^ b) (units x * units y) unitsPerOne

/-- The quotient; a non-zero number over zero is infinite, zero over zero is NaN. -/
def div : Binary64 → Binary64 → Binary64
  | .nan, _ => .nan
  | _, .nan => .nan
  | .infinite _, .infinite _ => .nan
  | .infinite a, .finite b _ => .infinite (a ^^ b)
  | .finite a _, .infinite b => zero.signed (a ^^ b)
  | .finite a x, .finite b y =>
    if y.val = 0 then (if x.val = 0 then .nan else .infinite (a ^^ b))
    else ofUnits (a ^^ b) (units x * unitsPerOne) (units y)

/-- A finite number as an exact count of units. -/
def signedUnits (negative : Bool) (rank : Nat) : Int :=
  if negative then -(units rank : Int) else units rank

/-- The sum; infinities of opposite sign give NaN, and a sum that vanishes is negative only if
both terms are. -/
def add : Binary64 → Binary64 → Binary64
  | .nan, _ => .nan
  | _, .nan => .nan
  | .infinite a, .infinite b => if a = b then .infinite a else .nan
  | .infinite a, .finite _ _ => .infinite a
  | .finite _ _, .infinite b => .infinite b
  | .finite a x, .finite b y =>
    let sum := signedUnits a x + signedUnits b y
    if sum = 0 then zero.signed (a && b)
    else ofUnits (decide (sum < 0)) sum.natAbs 1

end Segmentation.Binary64
