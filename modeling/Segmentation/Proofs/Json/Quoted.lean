import Mathlib
import Segmentation.Json.Writer
import Segmentation.Proofs.Json.Items

/-!
# Strings read back from their texts

A string is written character by character, each as itself or as an escape. Both are read back as
the character (`stringBody_escapeChar`), hence the string in quotes as the string
(`startsString_writeString`).
-/

set_option autoImplicit false

namespace Segmentation.Json

/-! ### Characters -/

/-- A control character is written as an escape that is read as the character. -/
theorem exists_escape_of_control {c : Char} (h : c.toNat < 0x20) : ∃ body,
    escapeChar c = '\\' :: body ∧ ∀ tail, escape (body ++ tail) = .ok (c, tail) := by
  have hc : c = Char.ofNat c.toNat := (Char.ofNat_toNat c).symm
  generalize c.toNat = n at h hc
  subst hc
  interval_cases n <;> exact ⟨_, rfl, fun _ ↦ rfl⟩

/-- A character is written as an escape of its own or as itself. -/
theorem escapeChar_cases (c : Char) :
    (∃ body, escapeChar c = '\\' :: body ∧ ∀ tail, escape (body ++ tail) = .ok (c, tail)) ∨
      escapeChar c = [c] ∧ c ≠ '"' ∧ c ≠ '\\' ∧ 0x20 ≤ c.toNat := by
  by_cases hcontrol : c.toNat < 0x20
  · exact Or.inl (exists_escape_of_control hcontrol)
  by_cases hquote : c = '"'
  · subst hquote
    exact Or.inl ⟨_, rfl, fun _ ↦ rfl⟩
  by_cases hbackslash : c = '\\'
  · subst hbackslash
    exact Or.inl ⟨_, rfl, fun _ ↦ rfl⟩
  right
  have hnamed : c ≠ '\n' ∧ c ≠ '\r' ∧ c ≠ '\t' := by
    refine ⟨?_, ?_, ?_⟩ <;> rintro rfl <;> exact absurd hcontrol (by decide)
  refine ⟨?_, hquote, hbackslash, Nat.not_lt.mp hcontrol⟩
  rw [escapeChar, if_neg hquote, if_neg hbackslash, if_neg (by omega), if_neg (by omega),
    if_neg hnamed.1, if_neg hnamed.2.1, if_neg hnamed.2.2, if_neg (by omega), if_neg (by omega)]

/-- Whatever form a character has in a string, it is read as the character. -/
theorem stringBody_escapeChar (limit : ℕ) (c : Char) {tail rest : List Char} {more : List Char}
    (h : stringBody limit tail = .ok (more, rest)) :
    stringBody (limit + 1) (escapeChar c ++ tail) = .ok (c :: more, rest) := by
  rcases escapeChar_cases c with ⟨body, hchar, hescape⟩ | ⟨hchar, hquote, hbackslash, hcontrol⟩
  · rw [hchar, List.cons_append, stringBody, if_neg (by decide), if_pos rfl]
    exact bind_eq_ok.mpr ⟨_, hescape tail, bind_eq_ok.mpr ⟨_, h, rfl⟩⟩
  · rw [hchar, List.singleton_append, stringBody, if_neg hquote, if_neg hbackslash,
      if_neg (Nat.not_lt.mpr hcontrol)]
    exact bind_eq_ok.mpr ⟨_, h, rfl⟩

theorem length_escapeChar_pos (c : Char) : 0 < (escapeChar c).length := by
  rcases escapeChar_cases c with ⟨body, hchar, -⟩ | ⟨hchar, -⟩
  · rw [hchar]
    exact Nat.succ_pos _
  · rw [hchar]
    exact Nat.one_pos

/-! ### Strings -/

/-- The characters of a string are read back up to the closing quote. -/
theorem stringBody_flatMap {limit : ℕ} {word : List Char} (h : word.length < limit)
    (rest : List Char) :
    stringBody limit (word.flatMap escapeChar ++ '"' :: rest) = .ok (word, rest) := by
  induction word generalizing limit with
  | nil =>
    obtain ⟨smaller, rfl⟩ : ∃ smaller, limit = smaller + 1 := ⟨limit - 1, by omega⟩
    rw [List.flatMap_nil, List.nil_append, stringBody, if_pos rfl]
  | cons c word ih =>
    obtain ⟨smaller, rfl⟩ : ∃ smaller, limit = smaller + 1 := ⟨limit - 1, by omega⟩
    rw [List.flatMap_cons, List.append_assoc]
    exact stringBody_escapeChar smaller c (ih (Nat.lt_of_succ_lt_succ h))

/-- A string is not longer than its text. -/
theorem length_le_writeString (s : String) : s.toList.length + 2 ≤ (writeString s).length := by
  have hle := length_le_flatMap s.toList fun c _ ↦ length_escapeChar_pos c
  simp only [writeString, List.length_cons, List.length_append, List.length_nil]
  omega

/-- A string is read back from its text, whatever follows. -/
theorem startsString_writeString {limit : ℕ} {s : String} (h : s.toList.length < limit)
    (rest : List Char) : StartsString limit (writeString s ++ rest) s rest := by
  refine ⟨s.toList.flatMap escapeChar ++ '"' :: rest, ?_, ?_⟩
  · have htext : writeString s ++ rest =
        '"' :: (s.toList.flatMap escapeChar ++ '"' :: rest) := by
      simp [writeString]
    rw [htext]
    rfl
  · have hstring : String.ofList s.toList = s := String.ofList_toList
    refine bind_eq_ok.mpr ⟨(s.toList, rest), stringBody_flatMap h rest, ?_⟩
    show Except.ok (String.ofList s.toList, rest) = Except.ok (s, rest)
    rw [hstring]

end Segmentation.Json
