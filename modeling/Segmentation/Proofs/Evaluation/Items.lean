import Mathlib
import Segmentation.Proofs.Evaluation.Operands
import Segmentation.Proofs.Value.Joined

/-!
# Properties that are lists

The conditions look at a list through its text form only (`holds_array_congr`), which shows every
item that is not null as a whole, at any depth of lists within lists. So `contains` finds whatever
stands in the text of such an item, `starts with` the first item and `ends with` the last, and no
condition tells a list within the list from its items (`text_conditions_see_items`).
-/

set_option autoImplicit false

namespace Segmentation

/-- Lists with one text form are alike to every condition: as they equal no operand, only the text
counts. -/
theorem Condition.holds_array_congr {items items' : List Value}
    (h : (Value.array items').text = (Value.array items).text) (condition : Condition)
    (operand : String) :
    condition.holds (some (.array items')) operand =
      condition.holds (some (.array items)) operand := by
  have hnumber : (Value.array items').toNumber = (Value.array items).toNumber := by
    rw [Value.toNumber, Value.toNumber, h]
  cases condition with
  | is | isNot | isEmpty | isNotEmpty | unknown _ => rfl
  | contains | doesNotContain | startsWith | doesNotStartWith | endsWith | doesNotEndWith =>
    simp only [holds, Option.any_some, h]
  | isMoreThan | isLessThan => simp only [holds, Option.any_some, hnumber]

namespace Settings

open Value (Dissolves Nested)

variable (settings : Settings) {event : Event} {name : String} {items : List Value}

/-- The conditions on a property that is a list see every item. `contains` holds of every word in
the text of a value that is not null and is an item of the list or nested in it by way of lists.
`starts with` holds of the text of the first item and `ends with` of the text of the last, unless
they are null. If a list nested in the property, which is not empty, is replaced by its items, then
the text form stays as it is, and so does the result of every condition. -/
theorem text_conditions_see_items (h : settings.resolve event name = some (.array items)) :
    let test := fun condition operand ↦ settings.satisfies event ⟨name, condition, operand⟩
    (∀ (positions : List ℕ) item, Nested (positions.map .index) (.array items) item → item ≠ .null →
      ∀ word : String, word.toList <:+: item.text.toList → test .contains word = true) ∧
    (∀ item, items.head? = some item → item ≠ .null → test .startsWith item.text = true) ∧
    (∀ item, items.getLast? = some item → item ≠ .null → test .endsWith item.text = true) ∧
    ∀ items', Dissolves items items' → (Value.array items').text = (Value.array items).text ∧
      ∀ other, settings.resolve other name = some (.array items') → ∀ condition operand,
        settings.satisfies other ⟨name, condition, operand⟩ = test condition operand := by
  intro test
  have htest : ∀ condition operand,
      test condition operand = condition.holds (some (.array items)) operand :=
    settings.satisfies_of_resolve h
  refine ⟨fun positions item hitem hnull word hword ↦ ?_, fun item hitem hnull ↦ ?_,
    fun item hitem hnull ↦ ?_, fun items' hitems' ↦ ⟨hitems'.text_eq, ?_⟩⟩
  · rw [htest]
    exact Text.contains_iff.mpr (hword.trans (Value.text_infix_of_nested hitem hnull))
  · rw [htest]
    exact Text.startsWith_iff.mpr (Value.text_prefix_of_head? hitem hnull)
  · rw [htest]
    exact Text.endsWith_iff.mpr (Value.text_suffix_of_getLast? hitem hnull)
  · intro other hother condition operand
    rw [htest, settings.satisfies_of_resolve hother]
    exact Condition.holds_array_congr hitems'.text_eq condition operand

/-- A list under a path, with lists in its lists and null items. In the second event the list at the
positions 1 and 0 is replaced by its items. -/
theorem text_conditions_see_items_nested :
    let tags : List Value := [.array [.string "été", .null],
      .array [.array [.number .one, .boolean true], .string "x"], .null, .string "end"]
    let tags' : List Value := [.array [.string "été", .null],
      .array [.number .one, .boolean true, .string "x"], .null, .string "end"]
    let event := fun tags ↦ Event.ofList [("user", .object [("tags", .array tags)])]
    let test := fun tags condition operand ↦
      (default : Settings).satisfies (event tags) ⟨"user.tags", condition, operand⟩
    test tags .contains "1,t" = true ∧ test tags .startsWith "été," = true ∧
      test tags .endsWith "end" = true ∧
      ∀ condition operand, test tags' condition operand = test tags condition operand := by
  intro tags tags' event test
  have htags : (default : Settings).resolve (event tags) "user.tags" = some (.array tags) := by rfl
  have htags' : (default : Settings).resolve (event tags') "user.tags" = some (.array tags') := by
    rfl
  have hnested : Value.Nested ([1, 0].map .index) (.array tags)
      (.array [.number .one, .boolean true]) := .item rfl (.item rfl (.here _))
  have hword : "1,t".toList <:+:
      (Value.array [.number .one, .boolean true]).text.toList := by decide +kernel
  have hdissolves : Dissolves tags tags' :=
    .within (.here (List.cons_ne_nil _ _) [] [.string "x"]) [.array [.string "été", .null]] _
  obtain ⟨hcontains, hstarts, hends, hflat⟩ :=
    (default : Settings).text_conditions_see_items htags
  exact ⟨hcontains [1, 0] _ hnested Value.noConfusion "1,t" hword,
    hstarts (.array [.string "été", .null]) rfl Value.noConfusion,
    hends (.string "end") rfl Value.noConfusion, (hflat tags' hdissolves).2 (event tags') htags'⟩

end Settings

end Segmentation
