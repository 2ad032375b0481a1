import Mathlib
import Segmentation.Proofs.Binary64.Order
import Segmentation.Proofs.Evaluation.OwnScalar
import Segmentation.Proofs.Json.LiteralDrift
import Segmentation.Proofs.Numeral.Literal

/-!
# A number against its own literal

A number literal can be the value of a property, where the reader of events turns it into a double,
and the text of an operand, where the reader of operands does. The second gives the nearest double,
the first multiplies or divides rounded numbers. `satisfies_own_literal` compares the two: the
property equals its own literal exactly if the reader of events has found the nearest double, as it
does for whole machine words and for short literals; if it has not, the property lies close by, on
one side of the literal. `own_literal_differs` is a literal of that kind.
-/

set_option autoImplicit false

namespace Segmentation

open Json (Literal)

/-! ### The event of a literal -/

namespace Event

/-- The text of an event whose property `p` is a number literal. -/
def literalText (literal : Literal) : String :=
  singleText "\"p\"" (" " ++ String.ofList literal.text)

theorem toList_literalText (literal : Literal) : (literalText literal).toList =
    '\x7b' :: '"' :: 'p' :: '"' :: ':' :: ' ' :: (literal.text ++ ['\x7d']) := by
  simp [literalText, singleText]

/-- The text of a literal is read as its number. -/
theorem read_literal {literal : Literal} {n : Json.Number} (h : literal.number? = some n) :
    Json.read (" " ++ String.ofList literal.text) = .ok (.number n) := by
  have htext : (" " ++ String.ofList literal.text).toList = [' '] ++ (literal.text ++ []) := by
    simp
  rw [Json.read, Json.readWith_eq_ok_iff, htext]
  exact ⟨[], Json.valueWith_literal rfl literal (Json.separated_nil.ends literal) h, rfl⟩

/-- An event whose property is a literal is read only if the literal has a number. -/
theorem exists_number_of_read {literal : Literal} {event : Event}
    (h : read (literalText literal) = .ok event) : ∃ n, literal.number? = some n := by
  unfold read at h
  split at h
  · rename_i document hdocument
    obtain ⟨rest, hvalue, -⟩ := Json.readWith_eq_ok_iff.mp hdocument
    have hlength : 2 ≤ (literalText literal).toList.length := by
      rw [toList_literalText]
      simp
    generalize (literalText literal).toList.length = length at hvalue hlength
    obtain ⟨limit, rfl⟩ : ∃ limit, length = limit + 2 := ⟨length - 2, by omega⟩
    rw [toList_literalText] at hvalue
    cases Json.reading_of_valueWith hvalue with
    | object hinner hskip hmembers =>
      obtain rfl := Option.some.inj hinner
      obtain ⟨-, rfl⟩ := List.cons.inj hskip
      obtain ⟨step, hstep, hmembers⟩ := Json.bind_eq_ok.mp hmembers
      obtain rfl := Except.ok.inj hstep
      obtain ⟨name, hname, hmembers⟩ := Json.bind_eq_ok.mp hmembers
      obtain rfl := Except.ok.inj hname
      obtain ⟨afterColon, hcolon, hmembers⟩ := Json.bind_eq_ok.mp hmembers
      obtain rfl := Except.ok.inj hcolon
      obtain ⟨value, hvalue, -⟩ := Json.bind_eq_ok.mp hmembers
      exact Json.exists_number_of_valueWith (show Json.skipSpace [' '] = [] from rfl) literal
        ((Json.separated_cons (by decide) []).ends literal) hvalue
    | string hskip => exact absurd (List.cons.inj hskip).1 (by decide)
    | array hinner hskip => exact absurd (List.cons.inj hskip).1 (by decide)
    | null hskip => exact absurd (List.cons.inj hskip).1 (by decide)
    | true hskip => exact absurd (List.cons.inj hskip).1 (by decide)
    | false hskip => exact absurd (List.cons.inj hskip).1 (by decide)
    | number hskip hc =>
      rw [← (List.cons.inj hskip).1] at hc
      exact absurd hc (by decide)
  · exact absurd h (by simp)

/-- Such an event has one property, which is the double of the number. -/
theorem eq_of_read_literalText {literal : Literal} {event : Event}
    (h : read (literalText literal) = .ok event) : ∃ n, literal.number? = some n ∧
      event = ofList [("p", .number n.toBinary64)] := by
  obtain ⟨n, hnumber⟩ := exists_number_of_read h
  have hname : Json.read "\"p\"" = .ok (.string "p") := rfl
  have hread := read_singleText hname (read_literal hnumber) trivial
  exact ⟨n, hnumber, Except.ok.inj (h.symm.trans hread)⟩

end Event

/-! ### The comparison -/

/-- The filter that compares the property with the literal itself. -/
def Json.Literal.filter (literal : Literal) (condition : String) : Filter :=
  .ofTexts "p" condition (String.ofList literal.text)

/-- The conditions compare a number with the double nearest to the literal. -/
theorem Settings.satisfies_literal_filter (settings : Settings) (literal : Literal)
    (x : Binary64) :
    settings.satisfies (.ofList [("p", .number x)]) (literal.filter "is") =
        x.equals literal.decimal.toBinary64 ∧
      settings.satisfies (.ofList [("p", .number x)]) (literal.filter "is not") =
        !x.equals literal.decimal.toBinary64 ∧
      settings.satisfies (.ofList [("p", .number x)]) (literal.filter "is more than") =
        literal.decimal.toBinary64.less x ∧
      settings.satisfies (.ofList [("p", .number x)]) (literal.filter "is less than") =
        x.less literal.decimal.toBinary64 := by
  have hproperty : settings.resolve (.ofList [("p", .number x)]) "p" = some (.number x) :=
    settings.resolve_of_get? (Event.get?_single "p" _) rfl
  have hoperand := Numeral.read_text literal
  have his : Condition.parse "is" = .is := by decide
  have hnot : Condition.parse "is not" = .isNot := by decide
  have hmore : Condition.parse "is more than" = .isMoreThan := by decide
  have hless : Condition.parse "is less than" = .isLessThan := by decide
  simp only [satisfies, Literal.filter, Filter.ofTexts, hproperty, his, hnot, hmore, hless,
    Condition.holds, Option.any_some, Option.all_some, Value.strictlyEquals, Value.cast,
    Value.kind, Value.toNumber, hoperand, and_self]

/-- What the conditions say about a property and its own literal. -/
theorem Settings.satisfies_own_literal (settings : Settings) (literal : Literal) {event : Event}
    (h : Event.read (Event.literalText literal) = .ok event) :
    ∃ x : Binary64, event = .ofList [("p", .number x)] ∧
      settings.satisfies event (literal.filter "is") = x.equals literal.decimal.toBinary64 ∧
      settings.satisfies event (literal.filter "is not") =
        !settings.satisfies event (literal.filter "is") ∧
      settings.satisfies event (literal.filter "is more than") =
        literal.decimal.toBinary64.less x ∧
      settings.satisfies event (literal.filter "is less than") =
        x.less literal.decimal.toBinary64 ∧
      (settings.satisfies event (literal.filter "is")).toNat +
        (settings.satisfies event (literal.filter "is more than")).toNat +
        (settings.satisfies event (literal.filter "is less than")).toNat = 1 ∧
      (literal.IsExact → settings.satisfies event (literal.filter "is") = true) ∧
      (literal.whole.length + 400 ≤ Json.exponentMax →
        Binary64.Near 7 x literal.decimal.toBinary64) := by
  obtain ⟨n, hnumber, rfl⟩ := Event.eq_of_read_literalText h
  obtain ⟨his, hnot, hmore, hless⟩ := settings.satisfies_literal_filter literal n.toBinary64
  obtain ⟨rank, hfinite⟩ := Literal.exists_finite_of_number? hnumber
  have hx : n.toBinary64 ≠ .nan := by
    rw [hfinite]
    exact fun heq ↦ by cases heq
  refine ⟨n.toBinary64, rfl, his, ?_, hmore, hless, ?_, ?_,
    Literal.near_of_number? hnumber⟩
  · rw [hnot, his]
  · rw [his, hmore, hless]
    exact Binary64.compare_trichotomy hx literal.decimal.toBinary64_ne_nan
  · intro hexact
    rw [his, ← Literal.toBinary64_of_isExact hexact hnumber, Binary64.equals_self, hfinite]
    rfl

/-- The literal `123.1`, which is read exactly. -/
theorem Settings.satisfies_own_literal_fraction : ∃ literal : Literal,
    literal.text = ['1', '2', '3', '.', '1'] ∧ ∃ event,
      Event.read (Event.literalText literal) = .ok event ∧
      Settings.default.satisfies event (literal.filter "is") = true ∧
      Settings.default.satisfies event (literal.filter "is not") = false := by
  let literal : Literal := ⟨false, ['1', '2', '3'], ['1'], none, by simp, by decide, by simp,
    by decide⟩
  have hnumber : literal.number?.isSome = true := by decide +kernel
  obtain ⟨n, hn⟩ := Option.isSome_iff_exists.mp hnumber
  have hname : Json.read "\"p\"" = .ok (.string "p") := rfl
  have hread := Event.read_singleText hname (Event.read_literal hn) trivial
  obtain ⟨-, -, -, hnot, -, -, -, hexact, -⟩ :=
    Settings.default.satisfies_own_literal literal hread
  have his := hexact (.short (by decide) (by decide) (by decide))
  refine ⟨literal, rfl, _, hread, his, ?_⟩
  rw [hnot, his]
  rfl

/-- The literal `9007199254740991.0` is read as the number below it, although it is a double. -/
theorem Settings.own_literal_differs : ∃ event,
    Event.read (Event.singleText "\"p\"" " 9007199254740991.0") = .ok event ∧
    Settings.default.satisfies event (.ofTexts "p" "is" "9007199254740991.0") = false ∧
    Settings.default.satisfies event (.ofTexts "p" "is less than" "9007199254740991.0") = true := by
  have hrun : (Event.read (Event.singleText "\"p\"" " 9007199254740991.0")).toOption.any
      (fun event ↦ !Settings.default.satisfies event (.ofTexts "p" "is" "9007199254740991.0") &&
        Settings.default.satisfies event (.ofTexts "p" "is less than" "9007199254740991.0")) =
      true := by
    decide +kernel
  obtain ⟨event, hread, htest⟩ := Json.any_toOption.mp hrun
  rw [Bool.and_eq_true, Bool.not_eq_true'] at htest
  exact ⟨event, hread, htest⟩

end Segmentation
