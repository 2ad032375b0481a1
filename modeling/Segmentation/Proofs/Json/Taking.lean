import Mathlib
import Segmentation.Proofs.Json.LiteralValue
import Segmentation.Proofs.Json.Nesting

/-!
# What a scan takes of its text

A scan that succeeds takes the front of its text and leaves the rest. What it makes of the front
does not depend on the rest: put in front of another text, the same front is taken again, with the
same result. Numbers are the exception, because a digit that follows would belong to them, so the
other text has to start alike or with something else (`Follows`). Scans that repeat take a limit,
and one larger than the number of characters taken is always enough (`Enough`).

This module shows it for blanks, words, strings (`stringTail_taken`) and numbers
(`numberLiteral_taken`), together with what the part that is taken adds to the nesting of a text.
-/

set_option autoImplicit false

namespace Segmentation.Json

open Text

/-! ### Successful scans -/

/-- A scan followed by another succeeds exactly if both do. -/
theorem bind_eq_ok {ε α β : Type} {first : Except ε α} {next : α → Except ε β} {b : β} :
    (first >>= next) = .ok b ↔ ∃ a, first = .ok a ∧ next a = .ok b := by
  cases first with
  | error fault => simp [bind, Except.bind]
  | ok a => simp [bind, Except.bind]

/-- A test of the result of a scan succeeds exactly if the scan does, with a result that passes. -/
theorem any_toOption {ε α : Type} {result : Except ε α} {test : α → Bool} :
    result.toOption.any test = true ↔ ∃ a, result = .ok a ∧ test a = true := by
  cases result with
  | error fault => simp [Except.toOption]
  | ok a => simp [Except.toOption]

/-- The text does not go on with a character of a number. -/
def Separated (extra : List Char) : Prop :=
  NoDigit extra ∧ ∀ c ∈ extra.head?, c ≠ '.' ∧ c ≠ 'e' ∧ c ≠ 'E'

theorem separated_nil : Separated [] := by
  constructor
  · intro c hc
    exact absurd hc (by simp)
  · intro c hc
    exact absurd hc (by simp)

/-- The punctuation and the blanks of JSON separate. -/
theorem separated_cons {c : Char} (h : c ∈ [',', ']', '\x7d', ' ', '\t', '\n', '\r'])
    (rest : List Char) : Separated (c :: rest) := by
  constructor
  · intro d hd
    rw [← Option.some.inj hd]
    fin_cases h <;> decide
  · intro d hd
    rw [← Option.some.inj hd]
    fin_cases h <;> decide

/-- A literal ends where the text is separated from it. -/
theorem Separated.ends {rest : List Char} (h : Separated rest) (literal : Literal) :
    literal.Ends rest := by
  refine ⟨h.1, fun _ c hc ↦ ?_, fun _ _ c hc ↦ (h.2 c hc).1⟩
  exact (h.2 c hc).2

/-- One text may stand where another stood: it starts alike, or with no character of a number. -/
def Follows (rest after : List Char) : Prop := after.head? = rest.head? ∨ Separated after

/-- A limit is enough for a part of a text: it is not below one that was enough, or it is larger
than the part is long. -/
def Enough (limit limit' : ℕ) (part : List Char) : Prop := limit ≤ limit' ∨ part.length < limit'

variable {limit limit' : ℕ} {part piece text rest after : List Char}

theorem Enough.mono (h : Enough limit limit' part) (hle : piece.length ≤ part.length) :
    Enough limit limit' piece :=
  h.imp_right fun hlt ↦ hle.trans_lt hlt

/-- After one repetition the limit is enough for what remains, if something was taken. -/
theorem Enough.succ (h : Enough (limit + 1) limit' part) : ∃ larger, limit' = larger + 1 ∧
    ∀ piece : List Char, piece.length < part.length → Enough limit larger piece := by
  have hpos : 0 < limit' := h.elim (fun hle ↦ by omega) (fun hlt ↦ by omega)
  refine ⟨limit' - 1, by omega, fun piece hpiece ↦ ?_⟩
  exact h.imp (fun hle ↦ by omega) (fun hlt ↦ by omega)

/-- The part ends with a character that is no blank. -/
def Solid (part : List Char) : Prop := ∃ front c, part = front ++ [c] ∧ isSpace c = false

theorem Solid.append (front : List Char) (h : Solid part) : Solid (front ++ part) := by
  obtain ⟨middle, c, rfl, hc⟩ := h
  exact ⟨front ++ middle, c, (List.append_assoc front middle [c]).symm, hc⟩

theorem Solid.length_pos (h : Solid part) : 0 < part.length := by
  obtain ⟨front, c, rfl, -⟩ := h
  rw [List.length_append]
  exact Nat.succ_pos _

/-- A text starts with the part that is put in front of it. -/
theorem Solid.head?_append (h : Solid part) (rest after : List Char) :
    (part ++ after).head? = (part ++ rest).head? := by
  obtain ⟨c, tail, rfl⟩ := List.exists_cons_of_length_pos h.length_pos
  rfl

theorem solid_of_forall (h : ∀ c ∈ part, isSpace c = false) (hne : part ≠ []) : Solid part := by
  obtain ⟨front, c, rfl⟩ := (List.eq_nil_or_concat' part).resolve_left hne
  exact ⟨front, c, rfl, h c (by simp)⟩

/-! ### Blanks and words -/

theorem skipSpace_eq_nil_iff : skipSpace text = [] ↔ ∀ c ∈ text, isSpace c = true :=
  List.dropWhile_eq_nil_iff

/-- A text of blanks only is passed as a whole. -/
theorem skipSpace_append_of_nil {extra : List Char} (h : skipSpace text = []) :
    skipSpace (text ++ extra) = skipSpace extra := by
  unfold skipSpace at h ⊢
  rw [List.dropWhile_append, h]
  rfl

/-- Blanks end where they ended before. -/
theorem skipSpace_append {extra : List Char} {c : Char} (h : skipSpace text = c :: rest) :
    skipSpace (text ++ extra) = c :: (rest ++ extra) := by
  unfold skipSpace at h ⊢
  rw [List.dropWhile_append, h]
  rfl

theorem skipSpace_cons {c : Char} (hc : isSpace c = false) (rest : List Char) :
    skipSpace (c :: rest) = c :: rest := by
  rw [skipSpace, List.dropWhile_cons_of_neg]
  rw [hc]
  exact Bool.false_ne_true

/-- Blanks are passed up to the first character that is none. -/
theorem skipSpace_blanks {blanks : List Char} (hblank : skipSpace blanks = []) {c : Char}
    (hc : isSpace c = false) (rest : List Char) : skipSpace (blanks ++ c :: rest) = c :: rest := by
  rw [skipSpace_append_of_nil hblank, skipSpace_cons hc]

/-- What is passed are blanks. -/
theorem exists_blanks {c : Char} (h : skipSpace text = c :: rest) : ∃ blanks,
    skipSpace blanks = [] ∧ isSpace c = false ∧ text = blanks ++ c :: rest := by
  have hsplit : text.takeWhile isSpace ++ c :: rest = text := by
    rw [← h]
    exact List.takeWhile_append_dropWhile
  refine ⟨text.takeWhile isSpace, ?_, ?_, hsplit.symm⟩
  · exact skipSpace_eq_nil_iff.mpr fun d hd ↦ List.mem_takeWhile_imp hd
  · have hhead := List.head?_dropWhile_not isSpace text
    have hrest : text.dropWhile isSpace = c :: rest := h
    rw [hrest] at hhead
    simpa using hhead

theorem isNeutral_of_isSpace {c : Char} (h : isSpace c = true) : IsNeutral c := by
  intro hc
  fin_cases hc <;> exact absurd h (by decide)

theorem turns_blanks {blanks : List Char} (hblank : skipSpace blanks = []) :
    Turns .plain .plain blanks :=
  turns_of_neutral fun c hc ↦ isNeutral_of_isSpace (skipSpace_eq_nil_iff.mp hblank c hc)

/-- A word is read exactly if the text starts with it. -/
theorem word_eq_ok_iff {expected : List Char} :
    word expected text = .ok rest ↔ text = expected ++ rest := by
  induction expected generalizing text with
  | nil => simp [word]
  | cons d expected ih =>
    cases text with
    | nil => simp [word]
    | cons c text =>
      rw [word, List.cons_append, List.cons.injEq]
      by_cases hc : c = d
      · simp [hc, ih]
      · simp [hc]

/-! ### Strings -/

theorem ne_of_codeUnit? {a b c d : Char} {unit : ℕ} (h : codeUnit? a b c d = some unit) :
    ∀ x ∈ [a, b, c, d], x ≠ '"' ∧ x ≠ '\\' := by
  have hquote : digit? 16 '"' = none := by decide
  have hbackslash : digit? 16 '\\' = none := by decide
  intro x hx
  simp only [List.mem_cons, List.not_mem_nil, or_false] at hx
  constructor
  · rintro rfl
    rcases hx with rfl | rfl | rfl | rfl <;> simp [codeUnit?, digits?, hquote] at h
  · rintro rfl
    rcases hx with rfl | rfl | rfl | rfl <;> simp [codeUnit?, digits?, hbackslash] at h

theorem codeUnit_taken {unit : ℕ} (h : codeUnit text = .ok (unit, rest)) : ∃ taken,
    text = taken ++ rest ∧ Turns .quoted .quoted taken ∧
      ∀ after, codeUnit (taken ++ after) = .ok (unit, after) := by
  match text with
  | a :: b :: c :: d :: tail =>
    simp only [codeUnit] at h
    split at h
    · rename_i found hunit
      obtain ⟨rfl, rfl⟩ := Prod.mk.inj (Except.ok.inj h)
      refine ⟨[a, b, c, d], rfl, turns_of_unescaped (ne_of_codeUnit? hunit), fun after ↦ ?_⟩
      simp only [List.cons_append, List.nil_append, codeUnit, hunit]
    · exact absurd h (by simp)
  | [] | [_] | [_, _] | [_, _, _] =>
    simp only [codeUnit] at h
    split at h <;> exact absurd h (by simp)

theorem pairMarker_eq_ok_iff : pairMarker text = .ok rest ↔ text = '\\' :: 'u' :: rest := by
  match text with
  | [] => simp [pairMarker]
  | [c] => by_cases hc : c = '\\' <;> simp [pairMarker, hc]
  | c :: d :: tail =>
    by_cases hc : c = '\\'
    · by_cases hd : d = 'u' <;> simp [pairMarker, hc, hd]
    · simp [pairMarker, hc]

theorem numberedEscape_taken {c : Char} (h : numberedEscape text = .ok (c, rest)) : ∃ taken,
    text = taken ++ rest ∧ Turns .quoted .quoted taken ∧
      ∀ after, numberedEscape (taken ++ after) = .ok (c, after) := by
  obtain ⟨⟨unit, afterUnit⟩, hunit, hread⟩ := bind_eq_ok.mp h
  obtain ⟨digits, rfl, hdigits, hagain⟩ := codeUnit_taken hunit
  simp only at hread
  split at hread
  · exact absurd hread (by simp)
  rename_i hlow
  split at hread
  · rename_i hhigh
    obtain ⟨second, hmarker, hafter⟩ := bind_eq_ok.mp hread
    obtain ⟨⟨low, last⟩, hlowUnit, hchar⟩ := bind_eq_ok.mp hafter
    rw [pairMarker_eq_ok_iff] at hmarker
    obtain ⟨lowDigits, rfl, hlowDigits, hlowAgain⟩ := codeUnit_taken hlowUnit
    simp only at hchar
    split at hchar
    · rename_i hpair
      obtain ⟨rfl, rfl⟩ := Prod.mk.inj (Except.ok.inj hchar)
      have hturns : Turns .quoted .quoted ('\\' :: 'u' :: lowDigits) :=
        (turns_backslash.append (turns_escaped 'u')).append hlowDigits
      refine ⟨digits ++ '\\' :: 'u' :: lowDigits, ?_, hdigits.append hturns, fun after ↦ ?_⟩
      · rw [hmarker, List.append_assoc]
        rfl
      · rw [List.append_assoc]
        refine bind_eq_ok.mpr ⟨_, hagain _, ?_⟩
        simp only [if_neg hlow, if_pos hhigh]
        refine bind_eq_ok.mpr ⟨_, pairMarker_eq_ok_iff.mpr rfl, ?_⟩
        refine bind_eq_ok.mpr ⟨_, hlowAgain after, ?_⟩
        simp only [if_pos hpair]
    · exact absurd hchar (by simp)
  · rename_i hhigh
    obtain ⟨rfl, rfl⟩ := Prod.mk.inj (Except.ok.inj hread)
    refine ⟨digits, rfl, hdigits, fun after ↦ bind_eq_ok.mpr ⟨_, hagain after, ?_⟩⟩
    simp only [if_neg hlow, if_neg hhigh]

theorem escape_taken {c : Char} (h : escape text = .ok (c, rest)) : ∃ taken,
    text = taken ++ rest ∧ Turns .escaped .quoted taken ∧
      ∀ after, escape (taken ++ after) = .ok (c, after) := by
  match text with
  | [] => exact absurd h (by simp [escape])
  | d :: tail =>
    rw [escape] at h
    cases hnamed : namedEscape? d with
    | some plain =>
      rw [hnamed] at h
      obtain ⟨rfl, rfl⟩ := Prod.mk.inj (Except.ok.inj h)
      exact ⟨[d], rfl, turns_escaped d, fun after ↦ by simp [escape, hnamed]⟩
    | none =>
      rw [hnamed] at h
      simp only at h
      split at h
      · rename_i hd
        obtain ⟨digits, rfl, hdigits, hagain⟩ := numberedEscape_taken h
        refine ⟨d :: digits, rfl, (turns_escaped d).append hdigits, fun after ↦ ?_⟩
        rw [List.cons_append, escape, hnamed]
        simp only [if_pos hd, hagain after]
      · exact absurd h (by simp)

/-- A string is taken up to its closing quote. -/
theorem stringBody_taken {body : List Char} (h : stringBody limit text = .ok (body, rest)) :
    ∃ taken, Solid taken ∧ text = taken ++ rest ∧ Turns .quoted .plain taken ∧
      ∀ limit' after, Enough limit limit' taken →
        stringBody limit' (taken ++ after) = .ok (body, after) := by
  induction limit generalizing text body with
  | zero => exact absurd h (by simp [stringBody])
  | succ limit ih =>
    match text with
    | [] => exact absurd h (by simp [stringBody])
    | c :: tail =>
      rw [stringBody] at h
      by_cases hquote : c = '"'
      · rw [if_pos hquote] at h
        obtain ⟨rfl, rfl⟩ := Prod.mk.inj (Except.ok.inj h)
        subst hquote
        refine ⟨['"'], ⟨[], '"', rfl, by decide⟩, rfl, turns_endQuote, ?_⟩
        intro limit' after henough
        obtain ⟨larger, rfl, -⟩ := henough.succ
        rw [List.singleton_append, stringBody, if_pos rfl]
      rw [if_neg hquote] at h
      by_cases hescape : c = '\\'
      · rw [if_pos hescape] at h
        obtain ⟨⟨plain, afterEscape⟩, hplain, h⟩ := bind_eq_ok.mp h
        obtain ⟨⟨more, last⟩, hmore, h⟩ := bind_eq_ok.mp h
        obtain ⟨rfl, rfl⟩ := Prod.mk.inj (Except.ok.inj h)
        obtain ⟨escaped, rfl, hescaped, hagain⟩ := escape_taken hplain
        obtain ⟨taken, hsolid, rfl, htaken, hmoreAgain⟩ := ih hmore
        subst hescape
        refine ⟨('\\' :: escaped) ++ taken, hsolid.append _, by simp, ?_, ?_⟩
        · exact (turns_backslash.append hescaped).append htaken
        · intro limit' after henough
          obtain ⟨larger, rfl, hlarger⟩ := henough.succ
          rw [List.append_assoc, List.cons_append, stringBody, if_neg (by decide), if_pos rfl]
          refine bind_eq_ok.mpr ⟨_, hagain (taken ++ after), ?_⟩
          refine bind_eq_ok.mpr ⟨_, hmoreAgain larger after (hlarger taken ?_), rfl⟩
          simp only [List.length_append, List.length_cons]
          omega
      rw [if_neg hescape] at h
      by_cases hcontrol : c.toNat < 0x20
      · rw [if_pos hcontrol] at h
        exact absurd h (by simp)
      rw [if_neg hcontrol] at h
      obtain ⟨⟨more, last⟩, hmore, h⟩ := bind_eq_ok.mp h
      obtain ⟨rfl, rfl⟩ := Prod.mk.inj (Except.ok.inj h)
      obtain ⟨taken, hsolid, rfl, htaken, hmoreAgain⟩ := ih hmore
      have hplain : Turns .quoted .quoted [c] := by
        refine turns_of_unescaped fun d hd ↦ ?_
        rw [List.mem_singleton.mp hd]
        exact ⟨hquote, hescape⟩
      refine ⟨[c] ++ taken, hsolid.append _, rfl, hplain.append htaken, ?_⟩
      intro limit' after henough
      obtain ⟨larger, rfl, hlarger⟩ := henough.succ
      rw [List.append_assoc, List.singleton_append, stringBody, if_neg hquote, if_neg hescape,
        if_neg hcontrol]
      refine bind_eq_ok.mpr ⟨_, hmoreAgain larger after (hlarger taken ?_), rfl⟩
      exact Nat.lt_succ_self _

theorem stringTail_taken {s : String} (h : stringTail limit text = .ok (s, rest)) :
    ∃ taken, Solid taken ∧ text = taken ++ rest ∧ Turns .quoted .plain taken ∧
      ∀ limit' after, Enough limit limit' taken →
        stringTail limit' (taken ++ after) = .ok (s, after) := by
  obtain ⟨⟨body, last⟩, hbody, h⟩ := bind_eq_ok.mp h
  obtain ⟨rfl, rfl⟩ := Prod.mk.inj (Except.ok.inj h)
  obtain ⟨taken, hsolid, htext, hturns, hagain⟩ := stringBody_taken hbody
  exact ⟨taken, hsolid, htext, hturns, fun limit' after henough ↦
    bind_eq_ok.mpr ⟨_, hagain limit' after henough, rfl⟩⟩

/-! ### Numbers -/

theorem isSpace_of_isDigit {c : Char} (h : isDigit c = true) : isSpace c = false := by
  have hne : ∀ d ∈ [' ', '\t', '\n', '\r'], c ≠ d := fun d hd ↦
    ne_of_isDigit h (by fin_cases hd <;> decide)
  simp only [List.mem_cons, List.not_mem_nil, or_false, forall_eq_or_imp, forall_eq] at hne
  simp [isSpace, hne]

theorem isSpace_of_mem_text {literal : Literal} {c : Char} (h : c ∈ literal.text) :
    isSpace c = false := by
  rcases literal.mem_text h with hdigit | hother
  · exact isSpace_of_isDigit hdigit
  · fin_cases hother <;> decide

theorem isNeutral_of_mem_text {literal : Literal} {c : Char} (h : c ∈ literal.text) :
    IsNeutral c := by
  intro hc
  rcases literal.mem_text h with hdigit | hother
  · fin_cases hc <;> exact absurd hdigit (by decide)
  · fin_cases hc <;> exact absurd hother (by decide)

theorem text_ne_nil (literal : Literal) : literal.text ≠ [] := by
  have hpos := List.length_pos_of_ne_nil literal.whole_ne_nil
  refine List.ne_nil_of_length_pos ?_
  simp only [Literal.text, List.length_append]
  omega

/-- Whether a literal ends depends on the next character only. -/
theorem Follows.ends {literal : Literal} (h : Follows rest after) (hends : literal.Ends rest) :
    literal.Ends after := by
  rcases h with hhead | hseparated
  · unfold Literal.Ends NoDigit at hends ⊢
    rw [hhead]
    exact hends
  · exact hseparated.ends literal

/-- A number is taken as a literal. -/
theorem numberLiteral_taken {n : Number} (h : numberLiteral text = .ok (n, rest)) :
    ∃ taken, Solid taken ∧ text = taken ++ rest ∧ Turns .plain .plain taken ∧
      ∀ after, Follows rest after → numberLiteral (taken ++ after) = .ok (n, after) := by
  obtain ⟨literal, htext, hends, hnumber⟩ := exists_literal h
  refine ⟨literal.text, solid_of_forall (fun c ↦ isSpace_of_mem_text) (text_ne_nil literal), htext,
    turns_of_neutral fun c ↦ isNeutral_of_mem_text, fun after hfollows ↦ ?_⟩
  have hread := numberLiteral_text literal (hfollows.ends hends)
  rw [hnumber] at hread
  exact hread

end Segmentation.Json
