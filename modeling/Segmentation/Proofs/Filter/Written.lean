import Mathlib
import Segmentation.Proofs.Filter.Stored
import Segmentation.Proofs.Json.Written

/-!
# Filter lists read back from their texts

A list of filters is stored as a JSON list of objects. Each text of a filter is stored as a string,
so an operand that looks like a number or a truth value stays a text, and a condition text is looked
up again and found to be the same condition (`Condition.text_parse`). `scan_toJsonAs` reads one
stored filter back, whichever spelling its field names have, and `readList_compact` the whole list.
-/

set_option autoImplicit false

namespace Segmentation.Filter

open Json (Separated ReadsBack StartsString StartsScalar write writeString membersText)

/-! ### Spellings -/

/-- The spelling of the two field names that have more than one. -/
structure Spelling where
  /-- Whether the property stands under its name in snake case. -/
  snakeProperty : Bool
  /-- Whether the operand stands under its name in snake case. -/
  snakeOperand : Bool

namespace Spelling

def propertyKey (spelling : Spelling) : String :=
  if spelling.snakeProperty then "property_name" else "propertyName"

def operandKey (spelling : Spelling) : String :=
  if spelling.snakeOperand then "property_value" else "propertyValue"

theorem propertyKey_cases (spelling : Spelling) :
    spelling.propertyKey = "propertyName" ∨ spelling.propertyKey = "property_name" := by
  unfold propertyKey
  split
  · exact Or.inr rfl
  · exact Or.inl rfl

theorem operandKey_cases (spelling : Spelling) :
    spelling.operandKey = "propertyValue" ∨ spelling.operandKey = "property_value" := by
  unfold operandKey
  split
  · exact Or.inr rfl
  · exact Or.inl rfl

end Spelling

/-- A filter as it is stored with its field names in a spelling. -/
def toJsonAs (spelling : Spelling) (filter : Filter) : Json :=
  .object [(spelling.propertyKey, .string filter.propertyName),
    ("condition", .string filter.condition.text),
    (spelling.operandKey, .string filter.operand)]

theorem toJsonAs_camel (filter : Filter) : filter.toJsonAs ⟨false, false⟩ = filter.toJson := rfl

/-! ### One filter -/

variable {limit depth : ℕ} {spelling : Spelling} {filter : Filter}

/-- The text of a stored filter, with its end and what follows. -/
theorem write_toJsonAs (spelling : Spelling) (filter : Filter) (rest : List Char) :
    write (filter.toJsonAs spelling) ++ rest = '\x7b' ::
      (writeString spelling.propertyKey ++ ':' :: (writeString filter.propertyName ++ ',' ::
        (writeString "condition" ++ ':' :: (writeString filter.condition.text ++ ',' ::
          (writeString spelling.operandKey ++ ':' ::
            (writeString filter.operand ++ '\x7d' :: rest)))))) := by
  rw [toJsonAs, Json.write_object]
  simp [membersText, Json.writeMembers, write]

/-- None of the strings of a stored filter is as long as its text. -/
theorem length_lt_write {s : String} (h : s ∈ [spelling.propertyKey, filter.propertyName,
    "condition", filter.condition.text, spelling.operandKey, filter.operand]) :
    s.toList.length + 3 < (write (filter.toJsonAs spelling)).length := by
  have htext := congrArg List.length (write_toJsonAs spelling filter [])
  have hs := Json.length_le_writeString s
  simp only [List.append_nil, List.length_cons, List.length_append, List.length_nil] at htext
  simp only [List.mem_cons, List.not_mem_nil, or_false] at h
  rcases h with rfl | rfl | rfl | rfl | rfl | rfl <;> omega

theorem startsScalar_writeString {s : String} (h : s.toList.length < limit) (rest : List Char) :
    StartsScalar limit (writeString s ++ rest) (.string s) rest := by
  obtain ⟨tail, hskip, hread⟩ := Json.startsString_writeString h rest
  exact Json.valueWith_of_reading (.string hskip hread)

variable {limit' : ℕ} {draft : Draft} {s : String} {rest : List Char}

theorem readMembers_writtenProperty (hkey : spelling.propertyKey.toList.length < limit)
    (hs : s.toList.length < limit) (hdraft : draft.propertyName = none) :
    (shape limit depth).readMembers limit true (limit' + 1) draft
        (writeString spelling.propertyKey ++ ':' :: (writeString s ++ rest)) =
      (shape limit depth).readMembers limit false limit' { draft with propertyName := some s }
        rest := by
  obtain ⟨tail, hstep, hname⟩ := Json.nextMember_first
    (Json.startsString_writeString hkey (':' :: (writeString s ++ rest)))
  exact readMembers_propertyName spelling.propertyKey_cases hstep hname hdraft
    (Json.startsString_writeString hs rest)

theorem readMembers_writtenCondition (hkey : "condition".toList.length < limit)
    (hs : s.toList.length < limit) (hdraft : draft.condition = none) :
    (shape limit depth).readMembers limit false (limit' + 1) draft
        (',' :: (writeString "condition" ++ ':' :: (writeString s ++ rest))) =
      (shape limit depth).readMembers limit false limit'
        { draft with condition := some (Condition.parse s) } rest := by
  have hblank : Json.skipSpace [] = [] := rfl
  obtain ⟨tail, hstep, hname⟩ := Json.nextMember_comma hblank
    (Json.startsString_writeString hkey (':' :: (writeString s ++ rest)))
  exact readMembers_condition hstep hname hdraft (Json.startsString_writeString hs rest)

theorem readMembers_writtenOperand (hkey : spelling.operandKey.toList.length < limit)
    (hs : s.toList.length < limit) (hdraft : draft.operand = none) :
    (shape limit depth).readMembers limit false (limit' + 1) draft
        (',' :: (writeString spelling.operandKey ++ ':' :: (writeString s ++ rest))) =
      (shape limit depth).readMembers limit false limit' { draft with operand := some s }
        rest := by
  have hblank : Json.skipSpace [] = [] := rfl
  obtain ⟨tail, hstep, hname⟩ := Json.nextMember_comma hblank
    (Json.startsString_writeString hkey (':' :: (writeString s ++ rest)))
  exact readMembers_propertyValue spelling.operandKey_cases hstep hname hdraft
    (startsScalar_writeString hs rest) rfl

/-- A filter is read back from its text, if its condition is the one that its text means. -/
theorem scan_toJsonAs (hcondition : Condition.parse filter.condition.text = filter.condition)
    (hlimit : (write (filter.toJsonAs spelling)).length < limit) :
    ReadsBack (scan limit (depth + 1)) (filter.toJsonAs spelling) filter := by
  intro rest hrest
  have hshort : ∀ s ∈ [spelling.propertyKey, filter.propertyName, "condition",
      filter.condition.text, spelling.operandKey, filter.operand], s.toList.length + 4 ≤ limit :=
    fun s hs ↦ by
      have := length_lt_write hs
      omega
  simp only [List.mem_cons, List.not_mem_nil, or_false, forall_eq_or_imp, forall_eq] at hshort
  obtain ⟨hpropertyKey, hproperty, hconditionKey, htext, hoperandKey, hoperand⟩ := hshort
  obtain ⟨fuel, rfl⟩ : ∃ fuel, limit = fuel + 4 := ⟨limit - 4, by omega⟩
  rw [write_toJsonAs]
  have hmembers : (shape (fuel + 4) depth).readMembers (fuel + 4) true (fuel + 4) {}
      (writeString spelling.propertyKey ++ ':' :: (writeString filter.propertyName ++ ',' ::
        (writeString "condition" ++ ':' :: (writeString filter.condition.text ++ ',' ::
          (writeString spelling.operandKey ++ ':' ::
            (writeString filter.operand ++ '\x7d' :: rest)))))) =
      .ok (⟨some filter.propertyName, some (Condition.parse filter.condition.text),
        some filter.operand⟩, rest) := by
    rw [readMembers_writtenProperty (by omega) (by omega) rfl,
      readMembers_writtenCondition (by omega) (by omega) rfl,
      readMembers_writtenOperand (by omega) (by omega) rfl]
    exact Json.readMembers_close _ _ _ (show Json.skipSpace [] = [] from rfl)
  refine scan_of_readMembers hmembers ?_
  show Except.ok (⟨filter.propertyName, Condition.parse filter.condition.text,
    filter.operand⟩ : Filter) = .ok filter
  rw [hcondition]

/-! ### Lists of filters -/

theorem parse_text_ofTexts (name condition operand : String) :
    Condition.parse (ofTexts name condition operand).condition.text =
      (ofTexts name condition operand).condition := by
  rw [ofTexts, Condition.text_parse]

/-- Filters whose conditions are those that their texts mean are read back, each stored in a
spelling of its own. -/
theorem readList_toJsonAs {stored : List (Spelling × Filter)}
    (h : ∀ entry ∈ stored, Condition.parse entry.2.condition.text = entry.2.condition) :
    readList (Json.compact (.array (stored.map fun entry ↦ entry.2.toJsonAs entry.1))) =
      .ok (stored.map Prod.snd) := by
  have htext : (Json.compact (.array (stored.map fun entry ↦ entry.2.toJsonAs entry.1))).toList =
      '[' :: Json.itemsText (stored.map fun entry ↦ entry.2.toJsonAs entry.1) := by
    rw [Json.compact, String.toList_ofList, Json.write_array]
  have hlength := Json.length_le_itemsText (stored.map fun entry ↦ entry.2.toJsonAs entry.1)
  rw [List.length_map] at hlength
  rw [readList, Json.readWith_eq_ok_iff, htext, List.length_cons]
  generalize hlimit : (Json.itemsText
    (stored.map fun entry ↦ entry.2.toJsonAs entry.1)).length + 1 + 1 = limit
  have hread : ∀ entry ∈ stored, ReadsBack (scan limit (Json.maxDepth - 1))
      (entry.2.toJsonAs entry.1) entry.2 := by
    intro entry hentry
    have hle := hlength.2 _ (List.mem_map_of_mem hentry)
    exact scan_toJsonAs (h entry hentry) (by omega)
  have hitems := Json.items_itemsText (fun entry : Spelling × Filter ↦ entry.2.toJsonAs entry.1)
    Prod.snd stored hread (show stored.length < limit by omega) []
  rw [List.append_nil] at hitems
  exact ⟨[], hitems, rfl⟩

/-- Filters that are made of texts survive storage, whatever the texts are: the list is read back
from its JSON text, in order, also if its field names are spelled differently from filter to
filter. A condition keeps its text, known or not. -/
theorem readList_compact :
    (∀ texts : List (String × String × String),
      let filters := texts.map fun (name, condition, operand) ↦ ofTexts name condition operand
      readList (Json.compact (.array (filters.map toJson))) = .ok filters) ∧
    (∀ texts : List (Spelling × String × String × String),
      let stored := texts.map fun (spelling, name, condition, operand) ↦
        (spelling, ofTexts name condition operand)
      readList (Json.compact (.array (stored.map fun (spelling, filter) ↦
        filter.toJsonAs spelling))) = .ok (stored.map Prod.snd)) ∧
    ∀ text : String, (Condition.parse text).text = text := by
  have hspelled : ∀ texts : List (Spelling × String × String × String),
      let stored := texts.map fun (spelling, name, condition, operand) ↦
        (spelling, ofTexts name condition operand)
      readList (Json.compact (.array (stored.map fun (spelling, filter) ↦
        filter.toJsonAs spelling))) = .ok (stored.map Prod.snd) := by
    intro texts stored
    refine readList_toJsonAs fun entry hentry ↦ ?_
    obtain ⟨⟨spelling, name, condition, operand⟩, -, rfl⟩ := List.mem_map.mp hentry
    exact parse_text_ofTexts name condition operand
  refine ⟨fun texts ↦ ?_, hspelled, Condition.text_parse⟩
  have hcamel := hspelled (texts.map fun entry ↦ (⟨false, false⟩, entry))
  simp only [List.map_map, Function.comp_def, toJsonAs_camel] at hcamel ⊢
  exact hcamel

end Segmentation.Filter
