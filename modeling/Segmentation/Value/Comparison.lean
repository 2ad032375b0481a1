import Segmentation.Value.Json
import Segmentation.Value.Text

/-!
Comparing values. `strictlyEquals` is the comparison of the equality conditions: the kinds have to
agree, and lists and objects are never equal to anything. `sameContent` compares lists and objects
by their content. `cast` turns a text operand into the kind of the property that it is compared
with; a text that is no number becomes NaN, which equals nothing.
-/

set_option autoImplicit false

namespace Segmentation.Value

/-- Equality without conversion, between scalars of one kind. -/
def strictlyEquals : Value → Value → Bool
  | .null, .null => true
  | .boolean a, .boolean b => a == b
  | .number x, .number y => x.equals y
  | .bigint m, .bigint n => m == n
  | .string s, .string t => s == t
  | _, _ => false

mutual

/-- Equality by content. -/
def sameContent : Value → Value → Bool
  | .null, .null => true
  | .boolean a, .boolean b => a == b
  | .number x, .number y => x.equals y
  | .bigint m, .bigint n => m == n
  | .string s, .string t => s == t
  | .array xs, .array ys => sameItems xs ys
  | .object xs, .object ys => sameMembers xs ys
  | _, _ => false

def sameItems : List Value → List Value → Bool
  | [], [] => true
  | x :: xs, y :: ys => sameContent x y && sameItems xs ys
  | _, _ => false

def sameMembers : List (String × Value) → List (String × Value) → Bool
  | [], [] => true
  | (a, x) :: xs, (b, y) :: ys => a == b && sameContent x y && sameMembers xs ys
  | _, _ => false

end

/-- A letter of the Latin alphabet in lower case. -/
def lowerCase (c : Char) : Char :=
  if 'A' ≤ c ∧ c ≤ 'Z' then Char.ofNat (c.toNat + 32) else c

/-- A truth value in any letter case. Only Latin letters have a lower-case form that occurs in the
two words, so other letters need no folding. -/
def boolean? (text : String) : Option Bool :=
  let folded := text.toList.map lowerCase
  if folded = "true".toList then some true
  else if folded = "false".toList then some false
  else none

/-- A text operand as a value of a kind. The kinds that are not scalars leave it a text. -/
def cast (operand : String) : Kind → Value
  | .boolean => match boolean? operand with
    | some b => .boolean b
    | none => .string operand
  | .number => .number (Numeral.read operand)
  | .bigint => match Numeral.readWide operand with
    | some n => .bigint n
    | none => .number .nan
  | _ => .string operand

end Segmentation.Value
