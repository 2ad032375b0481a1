/-!
Double-precision numbers as exact data. A finite number is a sign and the rank of its magnitude
among the representable ones: rank zero is zero and each step up is the next larger magnitude. The
rank is also the biased exponent followed by the fraction bits, so the bit pattern of a number is
its sign bit in front of its rank. `units` gives the magnitude itself, counted in the smallest
positive number, and is strictly increasing (`units_strictMono`).

`==` and `<` here are the comparisons of the number line: a NaN is unequal to everything and
unordered, and the two zeros are one point.
-/

set_option autoImplicit false

namespace Segmentation

/-- The number of ranks from one power of two to the next, which is `2 ^ 52`. -/
abbrev Binary64.binade : Nat := 0x10000000000000

/-- The number of finite magnitudes. -/
abbrev Binary64.rankBound : Nat := 2047 * binade

/-- A double-precision number; the NaNs are not told apart. -/
inductive Binary64 where
  | nan
  | infinite (negative : Bool)
  | finite (negative : Bool) (rank : Fin Binary64.rankBound)
  deriving DecidableEq

namespace Binary64

instance : Inhabited Binary64 := ⟨.nan⟩

/-- The magnitude of a rank, in units of the smallest positive number `2 ^ -1074`. -/
def units (rank : Nat) : Nat :=
  if rank < binade then rank
  else (binade + rank % binade) * Nat.pow 2 (rank / binade - 1)

/-- The number one, counted in those units. -/
def unitsPerOne : Nat := Nat.pow 2 1074

/-- Positive zero. -/
def zero : Binary64 := .finite false ⟨0, by decide⟩

/-- One: exponent `1023` and an empty fraction. -/
def one : Binary64 := .finite false ⟨1023 * binade, by decide⟩

def isNaN : Binary64 → Bool
  | .nan => true
  | _ => false

/-- Either zero. -/
def isZero : Binary64 → Bool
  | .finite _ rank => rank.val = 0
  | _ => false

/-- The same number with the other sign. -/
def neg : Binary64 → Binary64
  | .nan => .nan
  | .infinite negative => .infinite (!negative)
  | .finite negative rank => .finite (!negative) rank

def abs : Binary64 → Binary64
  | .nan => .nan
  | .infinite _ => .infinite false
  | .finite _ rank => .finite false rank

/-- The sign set on a magnitude: the number itself, or its negation. -/
def signed (negative : Bool) (x : Binary64) : Binary64 :=
  if negative then x.neg else x

/-- The place of a number on the number line, as the signed rank of its magnitude, with the
infinities one step outside the finite numbers. A NaN has no place. -/
def place? : Binary64 → Option Int
  | .nan => none
  | .infinite negative => some (if negative then -(rankBound : Int) else rankBound)
  | .finite negative rank => some (if negative then -(rank.val : Int) else rank.val)

/-- Both numbers have a place, and it is the same one. -/
def equals (x y : Binary64) : Bool :=
  match x.place?, y.place? with
  | some a, some b => a == b
  | _, _ => false

/-- Both numbers have a place, and the first lies below the second. -/
def less (x y : Binary64) : Bool :=
  match x.place?, y.place? with
  | some a, some b => a < b
  | _, _ => false

/-! ### Bit patterns -/

/-- The sign bit of a pattern, which is `2 ^ 63`. -/
abbrev signBit : Nat := 0x8000000000000000

/-- The number with a given 64-bit pattern. -/
def ofBits (bits : UInt64) : Binary64 :=
  let negative := decide (signBit ≤ bits.toNat)
  let rank := bits.toNat % signBit
  if h : rank < rankBound then .finite negative ⟨rank, h⟩
  else if rank = rankBound then .infinite negative
  else .nan

/-- The 64-bit pattern of a number; every NaN has the quiet pattern without payload. -/
def toBits : Binary64 → UInt64
  | .nan => 0x7ff8000000000000
  | .infinite negative => UInt64.ofNat ((if negative then signBit else 0) + rankBound)
  | .finite negative rank => UInt64.ofNat ((if negative then signBit else 0) + rank.val)

theorem ofBits_toBits (x : Binary64) : ofBits x.toBits = x := by
  cases x with
  | nan => rfl
  | infinite negative => cases negative <;> rfl
  | finite negative rank =>
    have hrank : rank.val < rankBound := rank.isLt
    have hlow : rank.val < signBit := Nat.lt_trans hrank (by decide)
    have hbits : (finite negative rank).toBits.toNat =
        (if negative then signBit else 0) + rank.val := by
      simp only [toBits, UInt64.toNat_ofNat']
      apply Nat.mod_eq_of_lt
      cases negative <;> simp only [signBit] at hlow ⊢ <;> simp <;> omega
    cases negative
    · simp only [Bool.false_eq_true, if_false, Nat.zero_add] at hbits
      simp only [ofBits, hbits, Nat.mod_eq_of_lt hlow, dif_pos hrank, Nat.not_le.mpr hlow,
        decide_false]
    · simp only [if_true] at hbits
      have hmod : (signBit + rank.val) % signBit = rank.val := by
        rw [Nat.add_mod_left, Nat.mod_eq_of_lt hlow]
      simp only [ofBits, hbits, hmod, dif_pos hrank, Nat.le_add_right, decide_true]

/-! ### Signs and comparisons -/

theorem place?_eq_none_iff {x : Binary64} : x.place? = none ↔ x = .nan := by
  cases x <;> simp [place?]

theorem equals_comm (x y : Binary64) : x.equals y = y.equals x := by
  unfold equals
  cases x.place? with
  | none => cases y.place? <;> rfl
  | some a =>
    cases y.place? with
    | none => rfl
    | some b => exact BEq.comm

/-- Only a NaN differs from itself. -/
theorem equals_self (x : Binary64) : x.equals x = !x.isNaN := by
  cases x <;> simp [equals, place?, isNaN]

theorem less_irrefl (x : Binary64) : x.less x = false := by
  unfold less
  cases x.place? <;> simp

theorem less_asymm {x y : Binary64} (h : x.less y = true) : y.less x = false := by
  unfold less at h ⊢
  cases hx : x.place? <;> cases hy : y.place? <;> simp_all
  omega

/-- Equal numbers are not ordered. -/
theorem less_eq_false_of_equals {x y : Binary64} (h : x.equals y = true) : x.less y = false := by
  unfold equals at h
  unfold less
  cases hx : x.place? <;> cases hy : y.place? <;> simp_all

/-! ### Magnitudes -/

theorem units_of_lt {rank : Nat} (h : rank < binade) : units rank = rank := if_pos h

theorem units_of_le {rank : Nat} (h : binade ≤ rank) :
    units rank = (binade + rank % binade) * Nat.pow 2 (rank / binade - 1) :=
  if_neg (Nat.not_lt.mpr h)

/-- The magnitude just above a rank lies one spacing higher, so ranks are ordered as their
magnitudes are. -/
theorem units_lt_succ (rank : Nat) : units rank < units (rank + 1) := by
  rcases Nat.lt_or_ge rank binade with hlow | hhigh
  · rw [units_of_lt hlow]
    rcases Nat.lt_or_eq_of_le (Nat.succ_le_of_lt hlow) with hlt | heq
    · rw [units_of_lt hlt]
      exact Nat.lt_succ_self rank
    · have hrank : rank = binade - 1 := Nat.eq_sub_of_add_eq heq
      subst hrank
      decide
  · rw [units_of_le hhigh, units_of_le (Nat.le_succ_of_le hhigh)]
    have hpos : 0 < Nat.pow 2 (rank / binade - 1) := Nat.two_pow_pos _
    by_cases hwrap : rank % binade = binade - 1
    · have hnext : (rank + 1) % binade = 0 ∧ (rank + 1) / binade - 1 = rank / binade - 1 + 1 := by
        simp only [binade] at hhigh hwrap ⊢
        omega
      have hpow : Nat.pow 2 (rank / binade - 1 + 1) = Nat.pow 2 (rank / binade - 1) * 2 := rfl
      rw [hnext.1, hnext.2, hwrap, hpow]
      generalize Nat.pow 2 (rank / binade - 1) = spacing at hpos
      simp only [binade]
      omega
    · have hnext : (rank + 1) % binade = rank % binade + 1 ∧
          (rank + 1) / binade = rank / binade := by
        simp only [binade] at hwrap ⊢
        omega
      rw [hnext.1, hnext.2]
      exact Nat.mul_lt_mul_of_pos_right (Nat.lt_succ_self _) hpos

theorem units_strictMono {low high : Nat} (h : low < high) : units low < units high := by
  induction high with
  | zero => omega
  | succ high ih =>
    rcases Nat.lt_succ_iff_lt_or_eq.mp h with hlt | heq
    · exact Nat.lt_trans (ih hlt) (units_lt_succ high)
    · exact heq ▸ units_lt_succ low

end Binary64

end Segmentation
