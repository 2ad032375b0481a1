/-!
Whether one text starts, ends or occurs in another.
-/

set_option autoImplicit false

namespace Segmentation.Text

def startsWith (whole part : String) : Bool := part.toList.isPrefixOf whole.toList

def endsWith (whole part : String) : Bool := part.toList.isSuffixOf whole.toList

/-- Whether a word occurs at some position of a text. -/
def occursIn (part : List Char) : List Char → Bool
  | [] => part.isEmpty
  | c :: rest => part.isPrefixOf (c :: rest) || occursIn part rest

def contains (whole part : String) : Bool := occursIn part.toList whole.toList

theorem startsWith_iff {whole part : String} :
    startsWith whole part = true ↔ part.toList <+: whole.toList :=
  List.isPrefixOf_iff_prefix

theorem endsWith_iff {whole part : String} :
    endsWith whole part = true ↔ part.toList <:+ whole.toList :=
  List.isSuffixOf_iff_suffix

theorem occursIn_iff {part text : List Char} : occursIn part text = true ↔ part <:+: text := by
  induction text with
  | nil => simp [occursIn]
  | cons c rest ih =>
    rw [occursIn, Bool.or_eq_true, List.isPrefixOf_iff_prefix, ih, List.infix_cons_iff]

theorem contains_iff {whole part : String} :
    contains whole part = true ↔ part.toList <:+: whole.toList :=
  occursIn_iff

end Segmentation.Text
