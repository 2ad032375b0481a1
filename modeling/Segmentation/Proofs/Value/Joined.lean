import Mathlib
import Segmentation.Proofs.Value.Nested
import Segmentation.Proofs.Value.Nulls

/-!
# The text form of lists

The text form of a list is that of its items with commas between them, where an item that is null
leaves its place empty (`text_array`). So the text of an item that is not null stands in it as a
whole, at the front for the first item and at the back for the last, and what stands in the text of
an item stands in that of the list: the text of whatever is nested in the list by way of lists is
there (`text_infix_of_nested`). The brackets of a list do not show. Replacing a list among the items
by its own items (`Dissolves`) therefore leaves the text as it is (`Dissolves.text_eq`), unless the
list is empty: it has one place, and none afterwards.
-/

set_option autoImplicit false

namespace Segmentation

/-! ### Joined words -/

namespace Text

/-- A word stands between what is joined before and after it. -/
theorem exists_intercalate_eq (separator word : String) (front back : List String) :
    ∃ before after, separator.intercalate (front ++ word :: back) = before ++ word ++ after ∧
      (front = [] → before = "") ∧ (back = [] → after = "") := by
  have htail : ∃ after, separator.intercalate (word :: back) = word ++ after ∧
      (back = [] → after = "") := by
    by_cases hback : back = []
    · exact ⟨"", by simp [hback], fun _ ↦ rfl⟩
    · refine ⟨separator ++ separator.intercalate back, ?_, fun h ↦ absurd h hback⟩
      rw [String.intercalate_cons_of_ne_nil hback, String.append_assoc]
  obtain ⟨after, hafter, hend⟩ := htail
  by_cases hfront : front = []
  · exact ⟨"", after, by simp [hfront, hafter], fun _ ↦ rfl, hend⟩
  · refine ⟨separator.intercalate front ++ separator, after, ?_, fun h ↦ absurd h hfront, hend⟩
    rw [String.intercalate_append_of_ne_nil hfront (List.cons_ne_nil word back), hafter,
      ← String.append_assoc]

/-- Words that are joined beforehand are joined all the same. -/
theorem intercalate_intercalate {words : List String} (h : words ≠ []) (separator : String)
    (front back : List String) :
    separator.intercalate (front ++ separator.intercalate words :: back) =
      separator.intercalate (front ++ words ++ back) := by
  have htail : separator.intercalate (separator.intercalate words :: back) =
      separator.intercalate (words ++ back) := by
    by_cases hback : back = []
    · simp [hback]
    · rw [String.intercalate_cons_of_ne_nil hback, String.intercalate_append_of_ne_nil h hback]
  rw [List.append_assoc]
  by_cases hfront : front = []
  · rw [hfront, List.nil_append, List.nil_append, htail]
  · have hne : words ++ back ≠ [] := List.append_ne_nil_of_left_ne_nil h back
    rw [String.intercalate_append_of_ne_nil hfront (List.cons_ne_nil _ back),
      String.intercalate_append_of_ne_nil hfront hne, htail]

end Text

namespace Value

/-! ### Places -/

/-- The text of an item in its list. -/
def placeText (item : Value) : String := if item.isNull then "" else item.text

theorem itemTexts_eq_map (items : List Value) : itemTexts items = items.map placeText := by
  induction items with
  | nil => rfl
  | cons item rest ih => rw [itemTexts, ih, List.map_cons, placeText]

theorem text_array (items : List Value) :
    (array items).text = ",".intercalate (items.map placeText) := by
  rw [text, itemTexts_eq_map]

theorem placeText_of_ne_null {item : Value} (h : item ≠ .null) : placeText item = item.text := by
  rw [placeText, if_neg (mt isNull_iff.mp h)]

/-! ### What stands in the text of a list -/

section Standing

variable {items front back : List Value} {item : Value}

/-- The text of an item that is not null stands in the text of the list, at its front if no item
comes before it, and at its back if none comes after it. -/
theorem exists_text_array_eq (h : item ≠ .null) (front back : List Value) :
    ∃ before after, (array (front ++ item :: back)).text = before ++ item.text ++ after ∧
      (front = [] → before = "") ∧ (back = [] → after = "") := by
  obtain ⟨before, after, htext, hbefore, hafter⟩ :=
    Text.exists_intercalate_eq "," (placeText item) (front.map placeText) (back.map placeText)
  refine ⟨before, after, ?_, fun hfront ↦ hbefore (by rw [hfront, List.map_nil]),
    fun hback ↦ hafter (by rw [hback, List.map_nil])⟩
  rw [text_array, List.map_append, List.map_cons, htext, placeText_of_ne_null h]

theorem text_infix_of_mem (hitem : item ∈ items) (h : item ≠ .null) :
    item.text.toList <:+: (array items).text.toList := by
  obtain ⟨front, back, rfl⟩ := List.append_of_mem hitem
  obtain ⟨before, after, htext, -, -⟩ := exists_text_array_eq h front back
  rw [htext, String.toList_append, String.toList_append]
  exact List.infix_append _ _ _

theorem text_prefix_of_head? (hitem : items.head? = some item) (h : item ≠ .null) :
    item.text.toList <+: (array items).text.toList := by
  obtain ⟨rest, rfl⟩ := List.head?_eq_some_iff.mp hitem
  obtain ⟨before, after, htext, hbefore, -⟩ := exists_text_array_eq h [] rest
  rw [List.nil_append, hbefore rfl, String.empty_append] at htext
  rw [htext, String.toList_append]
  exact List.prefix_append _ _

theorem text_suffix_of_getLast? (hitem : items.getLast? = some item) (h : item ≠ .null) :
    item.text.toList <:+ (array items).text.toList := by
  obtain ⟨front, rfl⟩ := List.getLast?_eq_some_iff.mp hitem
  obtain ⟨before, after, htext, -, hafter⟩ := exists_text_array_eq h front []
  rw [hafter rfl, String.append_empty] at htext
  rw [htext, String.toList_append]
  exact List.suffix_append _ _

/-- Only null itself is stored in null. -/
theorem Nested.ne_null {steps : List Step} {value inner : Value} (h : Nested steps value inner)
    (hinner : inner ≠ .null) : value ≠ .null := by
  cases h with
  | here _ => exact hinner
  | member _ _ => exact Value.noConfusion
  | item _ _ => exact Value.noConfusion

/-- The text of what is stored in a value by way of lists stands in the text of the value. -/
theorem text_infix_of_nested {positions : List ℕ} {value inner : Value}
    (h : Nested (positions.map .index) value inner) (hinner : inner ≠ .null) :
    inner.text.toList <:+: value.text.toList := by
  induction positions generalizing value with
  | nil =>
    cases h with
    | here _ => exact List.infix_refl _
  | cons position rest ih =>
    cases h with
    | item hitem hrest =>
      exact (ih hrest).trans
        (text_infix_of_mem (List.mem_of_getElem? hitem) (hrest.ne_null hinner))

end Standing

/-! ### Lists among the items -/

/-- The second list is the first, except that one list nested in it, which is not empty, is replaced
by its own items. -/
inductive Dissolves : List Value → List Value → Prop
  | here {items : List Value} (h : items ≠ []) (front back : List Value) :
      Dissolves (front ++ .array items :: back) (front ++ items ++ back)
  | within {items items' : List Value} (h : Dissolves items items') (front back : List Value) :
      Dissolves (front ++ .array items :: back) (front ++ .array items' :: back)

/-- The brackets of a list within a list do not show. -/
theorem Dissolves.text_eq {items items' : List Value} (h : Dissolves items items') :
    (array items').text = (array items).text := by
  induction h with
  | @here items hne front back =>
    have hwords : items.map placeText ≠ [] := mt List.map_eq_nil_iff.mp hne
    have hjoin := Text.intercalate_intercalate hwords "," (front.map placeText)
      (back.map placeText)
    rw [text_array, text_array]
    simp only [List.map_append, List.map_cons]
    rw [← hjoin, ← text_array]
    rfl
  | @within items items' _ front back ih =>
    have hplace : placeText (.array items') = placeText (.array items) := ih
    simp only [text_array, List.map_append, List.map_cons, hplace]

end Value

end Segmentation
