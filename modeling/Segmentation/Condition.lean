/-!
The conditions a filter can put on a property. The set is closed; any other condition text is kept
as it is, so that filter lists written for a larger set still load and are written back unchanged
(`text_parse`).
-/

set_option autoImplicit false

namespace Segmentation

inductive Condition where
  | is
  | isNot
  | contains
  | doesNotContain
  | startsWith
  | doesNotStartWith
  | endsWith
  | doesNotEndWith
  | isMoreThan
  | isLessThan
  | isEmpty
  | isNotEmpty
  /-- A text outside the supported set. -/
  | unknown (text : String)
  deriving DecidableEq

namespace Condition

/-- The supported conditions. -/
def supported : List Condition :=
  [.is, .isNot, .contains, .doesNotContain, .startsWith, .doesNotStartWith, .endsWith,
    .doesNotEndWith, .isMoreThan, .isLessThan, .isEmpty, .isNotEmpty]

/-- The text of a condition. -/
def text : Condition → String
  | .is => "is"
  | .isNot => "is not"
  | .contains => "contains"
  | .doesNotContain => "does not contain"
  | .startsWith => "starts with"
  | .doesNotStartWith => "does not start with"
  | .endsWith => "ends with"
  | .doesNotEndWith => "does not end with"
  | .isMoreThan => "is more than"
  | .isLessThan => "is less than"
  | .isEmpty => "is empty"
  | .isNotEmpty => "is not empty"
  | .unknown text => text

/-- The condition with a text. Case and spacing count. -/
def parse (text : String) : Condition :=
  (supported.find? fun condition ↦ condition.text == text).getD (.unknown text)

def isKnown : Condition → Bool
  | .unknown _ => false
  | _ => true

/-- Reading a condition text loses nothing. -/
theorem text_parse (text : String) : (parse text).text = text := by
  unfold parse
  cases h : supported.find? fun condition ↦ condition.text == text with
  | none => rfl
  | some condition => exact eq_of_beq (List.find?_some h :)

/-- A condition is known exactly if it is a supported one. -/
theorem isKnown_iff_mem_supported {condition : Condition} :
    condition.isKnown = true ↔ condition ∈ supported := by
  cases condition <;> simp [isKnown, supported]

/-- Every supported condition is read back from its text. -/
theorem parse_text_of_mem_supported {condition : Condition} (h : condition ∈ supported) :
    parse condition.text = condition := by
  simp only [supported, List.mem_cons, List.not_mem_nil, or_false] at h
  rcases h with rfl | rfl | rfl | rfl | rfl | rfl | rfl | rfl | rfl | rfl | rfl | rfl <;> decide

end Condition

end Segmentation
