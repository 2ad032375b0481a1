/-!
Integers of a bounded width: those that fit a machine word of 64 bits, without a sign and with one,
and wide integers of 128 bits with a sign. Wide integers are kept apart from the doubles, so that
large identifiers are compared digit by digit.
-/

set_option autoImplicit false

namespace Segmentation

namespace Word

/-- The largest word without a sign, which is `2 ^ 64 - 1`. -/
def unsignedMax : Nat := 0xffffffffffffffff

/-- One more than the largest word with a sign, which is `2 ^ 63`. -/
def signedLimit : Int := 0x8000000000000000

/-- Whether an integer fits a word with a sign. -/
def isSigned (n : Int) : Bool := -signedLimit ≤ n && n < signedLimit

theorem isSigned_iff {n : Int} :
    isSigned n = true ↔ -signedLimit ≤ n ∧ n < signedLimit := by
  simp [isSigned]

end Word

/-- One more than the largest wide integer, which is `2 ^ 127`. -/
abbrev WideInteger.limit : Int := 0x80000000000000000000000000000000

/-- An integer of 128 bits with a sign. -/
structure WideInteger where
  val : Int
  lower : -WideInteger.limit ≤ val
  upper : val < WideInteger.limit
  deriving DecidableEq

namespace WideInteger

/-- An integer as a wide one, if it is in range. -/
def ofInt? (n : Int) : Option WideInteger :=
  if h : -limit ≤ n ∧ n < limit then some ⟨n, h.1, h.2⟩ else none

theorem ofInt?_eq_some_iff {n : Int} {w : WideInteger} : ofInt? n = some w ↔ w.val = n := by
  obtain ⟨m, hlow, hhigh⟩ := w
  constructor
  · intro h
    unfold ofInt? at h
    split at h <;> simp_all
  · rintro rfl
    exact dif_pos ⟨hlow, hhigh⟩

end WideInteger

end Segmentation
