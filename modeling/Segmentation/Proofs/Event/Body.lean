import Mathlib
import Segmentation.Event
import Segmentation.Proofs.Json.Items
import Segmentation.Proofs.Text.DigitWord
import Segmentation.Text.Character

/-!
# The body of an event's text

The text of an event is an object with blanks around it (`exists_body`). The object is read alike
wherever it stands, as long as no more brackets open than may: alone, with other blanks around it
(`read_of_body`), or as an item of a list (`exists_isItem`). No white space that is none of JSON's
may stand before it, so trimming the text and passing its blanks lead to the same place
(`trimStart_of_value`).
-/

set_option autoImplicit false

namespace Segmentation.Text

/-- White space is trimmed up to the first character that is none. -/
theorem trimStart_append {blanks : List Char} (hblank : isBlankText blanks = true) {c : Char}
    (hc : isBlank c = false) (rest : List Char) : trimStart (blanks ++ c :: rest) = c :: rest := by
  have hnone : blanks.dropWhile isBlank = [] :=
    List.dropWhile_eq_nil_iff.mpr (List.all_eq_true.mp hblank)
  rw [trimStart, List.dropWhile_append, hnone, List.isEmpty_nil, if_pos rfl,
    List.dropWhile_cons_of_neg]
  rw [hc]
  exact Bool.false_ne_true

end Segmentation.Text

namespace Segmentation.Json

open Text

variable {limit depth : ℕ} {text rest : List Char} {document : Json}

/-! ### The start of a value -/

theorem reading_of_value (h : value limit depth text = .ok (document, rest)) :
    ∃ inner, Reading limit inner text rest document := by
  obtain ⟨inner, hinner⟩ := exists_inner limit depth
  rw [hinner] at h
  exact ⟨inner, reading_of_valueWith h⟩

theorem isBlank_of_isSpace {c : Char} (h : isSpace c = true) : isBlank c = true := by
  simp only [isSpace, Bool.or_eq_true, beq_iff_eq] at h
  rcases h with ((rfl | rfl) | rfl) | rfl <;> rfl

/-- The blanks of JSON are white space. -/
theorem isBlankText_of_skipSpace {blanks : List Char} (h : skipSpace blanks = []) :
    isBlankText blanks = true :=
  List.all_eq_true.mpr fun c hc ↦ isBlank_of_isSpace (skipSpace_eq_nil_iff.mp h c hc)

/-- A value starts with no white space of any kind. -/
theorem exists_start_of_value (h : value limit depth text = .ok (document, rest)) :
    ∃ c tail, skipSpace text = c :: tail ∧ isBlank c = false := by
  obtain ⟨inner, hreading⟩ := reading_of_value h
  cases hreading with
  | string hskip | array _ hskip | object _ hskip | null hskip | true hskip | false hskip =>
    exact ⟨_, _, hskip, rfl⟩
  | number hskip hc =>
    refine ⟨_, _, hskip, ?_⟩
    rcases hc with rfl | hc
    · rfl
    · exact isBlank_of_isDigit hc

/-- Before a value there is no white space that is none of JSON's. -/
theorem trimStart_of_value (h : value limit depth text = .ok (document, rest)) :
    trimStart text = skipSpace text := by
  obtain ⟨c, tail, hskip, hc⟩ := exists_start_of_value h
  obtain ⟨blanks, hblank, -, rfl⟩ := exists_blanks hskip
  rw [hskip, trimStart_append (isBlankText_of_skipSpace hblank) hc]

end Segmentation.Json

namespace Segmentation.Event

open Json (skipSpace Separated Solid Balanced)

variable {body lead trail : List Char} {levels : ℕ} {event : Event}

/-! ### The object -/

theorem read_eq_ok_iff {text : String} : read text = .ok event ↔
    ∃ document, Json.read text = .ok document ∧ ofJson document = .ok event := by
  unfold read
  cases Json.read text with
  | error error => simp
  | ok document => simp

/-- The documents that are events are the objects. -/
theorem ofJson_eq_ok_iff {document : Json} : ofJson document = .ok event ↔
    ∃ members, document = .object members ∧ ofList (Value.ofJsonMembers members) = event := by
  cases document <;> simp [ofJson, Value.ofJson]

/-- A document that is an event starts with a brace. -/
theorem exists_brace {limit depth : ℕ} {text rest : List Char} {document : Json}
    (hread : Json.value limit depth text = .ok (document, rest)) (h : ofJson document = .ok event) :
    ∃ tail, skipSpace text = '\x7b' :: tail := by
  obtain ⟨inner, hreading⟩ := Json.reading_of_value hread
  cases hreading with
  | object hinner hskip => exact ⟨_, hskip⟩
  | string | array | null | true | false | number => exact absurd h (by simp [ofJson, Value.ofJson])

/-- The characters are an object that is read as the event, with as many brackets open at once. -/
structure IsBody (body : List Char) (levels : ℕ) (event : Event) : Prop where
  brace : ∃ tail, body = '\x7b' :: tail
  solid : Solid body
  balanced : Balanced levels body
  read : ∃ document, ofJson document = .ok event ∧
    ∀ limit depth after, body.length < limit → levels ≤ depth → Separated after →
      Json.value limit depth (body ++ after) = .ok (document, after)

/-- The text of an event is the body of the event with blanks around it. -/
theorem exists_body {text : String} (h : read text = .ok event) : ∃ lead body trail levels,
    text.toList = lead ++ (body ++ trail) ∧ skipSpace lead = [] ∧ skipSpace trail = [] ∧
      levels ≤ Json.maxDepth ∧ IsBody body levels event := by
  obtain ⟨document, hread, hdocument⟩ := read_eq_ok_iff.mp h
  obtain ⟨trail, hvalue, htrail⟩ := Json.readWith_eq_ok_iff.mp hread
  obtain ⟨tail, hbrace⟩ := exists_brace hvalue hdocument
  obtain ⟨lead, hlead, -, htext⟩ := Json.exists_blanks hbrace
  rw [← Json.value_skipSpace, hbrace] at hvalue
  obtain ⟨body, levels, hbody, hlevels, htaken⟩ := Json.takes_value _ _ hvalue
  refine ⟨lead, body, trail, levels, by rw [htext, hbody], hlead, htrail, hlevels, ?_,
    htaken.solid, htaken.balanced, document, hdocument, ?_⟩
  · obtain ⟨c, body, rfl⟩ := List.exists_cons_of_length_pos htaken.solid.length_pos
    exact ⟨body, by rw [(List.cons.inj hbody).1]⟩
  · intro limit depth after hlimit hdepth hafter
    exact htaken.again limit depth after (Or.inr hlimit) hdepth (Or.inr hafter)

/-- The nesting of a text is that of the body in it. -/
theorem IsBody.nesting_eq (hbody : IsBody body levels event) (hlead : skipSpace lead = [])
    (htrail : skipSpace trail = []) : Json.nesting (lead ++ (body ++ trail)) = levels := by
  have hbalanced := (Json.turns_blanks hlead).balanced.append
    (hbody.balanced.append (Json.turns_blanks htrail).balanced)
  rw [Nat.max_zero, Nat.zero_max] at hbalanced
  exact Json.nesting_of_balanced hbalanced

/-- An event is read from its body, whatever blanks stand around it. -/
theorem read_of_body (hbody : IsBody body levels event) (hlevels : levels ≤ Json.maxDepth)
    (hlead : skipSpace lead = []) (htrail : skipSpace trail = []) :
    read (String.ofList (lead ++ (body ++ trail))) = .ok event := by
  obtain ⟨document, hdocument, hread⟩ := hbody.read
  refine read_eq_ok_iff.mpr ⟨document, Json.readWith_eq_ok_iff.mpr ⟨trail, ?_, htrail⟩, hdocument⟩
  obtain ⟨tail, rfl⟩ := hbody.brace
  have hspace : Json.isSpace '\x7b' = false := rfl
  have hseparated := Json.separated_blanks htrail Json.separated_nil
  rw [List.append_nil] at hseparated
  rw [String.toList_ofList, ← Json.value_skipSpace, List.cons_append,
    Json.skipSpace_blanks hlead hspace]
  refine hread _ _ trail ?_ hlevels hseparated
  simp only [List.length_append, List.length_cons]
  omega

/-- In a list the text of an event is that of an item, if it opens no more brackets than may. -/
theorem exists_isItem {text : String} (h : read text = .ok event) {limit depth : ℕ}
    (hlimit : text.toList.length < limit) (hdepth : Json.nesting text.toList ≤ depth) :
    ∃ document, ofJson document = .ok event ∧
      Json.IsItem (Json.value limit depth) text.toList document := by
  obtain ⟨lead, body, trail, levels, htext, hlead, htrail, hlevels, hbody⟩ := exists_body h
  obtain ⟨document, hdocument, hread⟩ := hbody.read
  obtain ⟨tail, hbrace⟩ := hbody.brace
  rw [htext, hbody.nesting_eq hlead htrail] at hdepth
  rw [htext, List.length_append, List.length_append] at hlimit
  refine ⟨document, hdocument, lead, body, trail, htext, hlead, htrail, ?_, ?_⟩
  · exact ⟨'\x7b', tail, hbrace, rfl, by decide⟩
  · exact fun after hafter ↦ hread limit depth after (by omega) hdepth hafter

end Segmentation.Event
