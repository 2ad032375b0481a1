import Mathlib
import Segmentation.Proofs.Json.Taking

/-!
# Reading the front of a longer text

A document that is read at the front of a text is read from the part that it takes, whatever
follows: `Taken` collects what is true of that part, and `takes_value` finds it, through lists and
objects, by induction on the depth. The brackets that are open at once in the part are counted
exactly, so the part can be read again wherever as many brackets may open, however many were allowed
before. `Reading` lists the ways in which a value can be read.
-/

set_option autoImplicit false

namespace Segmentation.Json

open Text

variable {α : Type} {limit limit' depth depth' fuel levels : ℕ} {first : Bool}
  {text rest taken after extra : List Char}

/-! ### Steps through lists and objects -/

theorem nextItem_eq_close_iff : nextItem first text = .ok (.close rest) ↔
    ∃ blanks, skipSpace blanks = [] ∧ text = blanks ++ ']' :: rest := by
  constructor
  · intro h
    unfold nextItem at h
    split at h
    · exact absurd h (by simp)
    rename_i c tail hskip
    obtain ⟨blanks, hblank, -, rfl⟩ := exists_blanks hskip
    by_cases hclose : c = ']'
    · rw [if_pos hclose, Except.ok.injEq, Step.close.injEq] at h
      exact ⟨blanks, hblank, by rw [hclose, h]⟩
    rw [if_neg hclose] at h
    split at h
    · exact absurd h (by simp)
    split at h
    · split at h
      · exact absurd h (by simp)
      · split at h <;> exact absurd h (by simp)
    · exact absurd h (by simp)
  · rintro ⟨blanks, hblank, rfl⟩
    have hspace : isSpace ']' = false := rfl
    simp only [nextItem, skipSpace_blanks hblank hspace, if_true]

/-- Up to an item there are blanks and, unless it is the first one, a comma. -/
theorem nextItem_taken (h : nextItem first text = .ok (.entry rest)) : ∃ taken,
    text = taken ++ rest ∧ Turns .plain .plain taken ∧
      ∀ after, after.head? = rest.head? → nextItem first (taken ++ after) = .ok (.entry after) := by
  unfold nextItem at h
  split at h
  · exact absurd h (by simp)
  rename_i c tail hskip
  obtain ⟨blanks, hblank, hc, rfl⟩ := exists_blanks hskip
  by_cases hclose : c = ']'
  · rw [if_pos hclose] at h
    exact absurd h (by simp)
  rw [if_neg hclose] at h
  by_cases hfirst : first = true
  · rw [if_pos hfirst, Except.ok.injEq, Step.entry.injEq] at h
    subst h
    refine ⟨blanks, rfl, turns_blanks hblank, fun after hafter ↦ ?_⟩
    obtain ⟨tail', rfl⟩ := List.head?_eq_some_iff.mp hafter
    simp only [nextItem, skipSpace_blanks hblank hc, if_neg hclose, if_pos hfirst]
  rw [if_neg hfirst] at h
  by_cases hcomma : c = ','
  swap
  · rw [if_neg hcomma] at h
    exact absurd h (by simp)
  subst hcomma
  rw [if_pos rfl] at h
  split at h
  · exact absurd h (by simp)
  rename_i d tail' hskip'
  obtain ⟨blanks', hblank', hd, rfl⟩ := exists_blanks hskip'
  split at h
  · exact absurd h (by simp)
  rename_i hclose'
  rw [Except.ok.injEq, Step.entry.injEq] at h
  subst h
  have hturns : Turns .plain .plain [','] := fun _ _ ↦ rfl
  refine ⟨blanks ++ ([','] ++ blanks'), by simp,
    (turns_blanks hblank).append (hturns.append (turns_blanks hblank')), fun after hafter ↦ ?_⟩
  obtain ⟨tail, rfl⟩ := List.head?_eq_some_iff.mp hafter
  simp only [List.append_assoc, List.cons_append, List.nil_append, nextItem, if_true,
    skipSpace_blanks hblank hc, if_neg hclose, if_neg hfirst, skipSpace_blanks hblank' hd,
    if_neg hclose']

theorem nameStart_eq_entry_iff : nameStart text = .ok (.entry rest) ↔ text = '"' :: rest := by
  cases text with
  | nil => simp [nameStart]
  | cons c tail =>
    by_cases hquote : c = '"'
    · simp [nameStart, hquote]
    · by_cases hclose : c = '\x7d' <;> simp [nameStart, hquote, hclose]

theorem nameStart_ne_close : nameStart text ≠ .ok (.close rest) := by
  intro h
  cases text with
  | nil => exact absurd h (by simp [nameStart])
  | cons c tail =>
    simp only [nameStart] at h
    split at h
    · exact absurd h (by simp)
    · split at h <;> exact absurd h (by simp)

theorem nextMember_eq_close_iff : nextMember first text = .ok (.close rest) ↔
    ∃ blanks, skipSpace blanks = [] ∧ text = blanks ++ '\x7d' :: rest := by
  constructor
  · intro h
    unfold nextMember at h
    split at h
    · exact absurd h (by simp)
    rename_i c tail hskip
    obtain ⟨blanks, hblank, -, rfl⟩ := exists_blanks hskip
    by_cases hclose : c = '\x7d'
    · rw [if_pos hclose, Except.ok.injEq, Step.close.injEq] at h
      exact ⟨blanks, hblank, by rw [hclose, h]⟩
    rw [if_neg hclose] at h
    split at h
    · exact absurd h nameStart_ne_close
    split at h
    · exact absurd h nameStart_ne_close
    · exact absurd h (by simp)
  · rintro ⟨blanks, hblank, rfl⟩
    have hspace : isSpace '\x7d' = false := rfl
    simp only [nextMember, skipSpace_blanks hblank hspace, if_true]

/-- Up to a name there are blanks, a comma unless it is the first one, and a quotation mark. -/
theorem nextMember_taken (h : nextMember first text = .ok (.entry rest)) : ∃ taken,
    text = taken ++ rest ∧ Turns .plain .quoted taken ∧
      ∀ after, nextMember first (taken ++ after) = .ok (.entry after) := by
  unfold nextMember at h
  split at h
  · exact absurd h (by simp)
  rename_i c tail hskip
  obtain ⟨blanks, hblank, hc, rfl⟩ := exists_blanks hskip
  by_cases hclose : c = '\x7d'
  · rw [if_pos hclose] at h
    exact absurd h (by simp)
  rw [if_neg hclose] at h
  by_cases hfirst : first = true
  · rw [if_pos hfirst, nameStart_eq_entry_iff, List.cons.injEq] at h
    obtain ⟨rfl, rfl⟩ := h
    refine ⟨blanks ++ ['"'], by simp, (turns_blanks hblank).append turns_quote, fun after ↦ ?_⟩
    simp only [List.append_assoc, List.cons_append, List.nil_append, nextMember,
      skipSpace_blanks hblank hc, if_neg hclose, if_pos hfirst, nameStart_eq_entry_iff]
  rw [if_neg hfirst] at h
  by_cases hcomma : c = ','
  swap
  · rw [if_neg hcomma] at h
    exact absurd h (by simp)
  subst hcomma
  rw [if_pos rfl, nameStart_eq_entry_iff] at h
  obtain ⟨blanks', hblank', hquote, rfl⟩ := exists_blanks h
  have hturns : Turns .plain .plain [','] := fun _ _ ↦ rfl
  refine ⟨blanks ++ ([','] ++ (blanks' ++ ['"'])), by simp,
    (turns_blanks hblank).append (hturns.append ((turns_blanks hblank').append turns_quote)),
    fun after ↦ ?_⟩
  simp only [List.append_assoc, List.cons_append, List.nil_append, nextMember, if_true,
    skipSpace_blanks hblank hc, if_neg hclose, if_neg hfirst, skipSpace_blanks hblank' hquote,
    nameStart_eq_entry_iff]

theorem colon_eq_ok_iff : colon text = .ok rest ↔
    ∃ blanks, skipSpace blanks = [] ∧ text = blanks ++ ':' :: rest := by
  constructor
  · intro h
    unfold colon at h
    split at h
    · exact absurd h (by simp)
    rename_i c tail hskip
    obtain ⟨blanks, hblank, -, rfl⟩ := exists_blanks hskip
    split at h
    · rename_i hc
      rw [Except.ok.injEq] at h
      exact ⟨blanks, hblank, by rw [hc, h]⟩
    · exact absurd h (by simp)
  · rintro ⟨blanks, hblank, rfl⟩
    have hspace : isSpace ':' = false := rfl
    simp only [colon, skipSpace_blanks hblank hspace, if_true]

/-! ### The part that is taken -/

/-- The part `taken` of a text is read alike wherever it stands, if what follows it there may stand
for what followed it before. -/
structure Taken (scan : ℕ → ℕ → Scan α) (limit levels : ℕ) (taken rest : List Char) (result : α) :
    Prop where
  solid : Solid taken
  balanced : Balanced levels taken
  again : ∀ limit' depth' after, Enough limit limit' taken → levels ≤ depth' →
    Follows rest after → scan limit' depth' (taken ++ after) = .ok (result, after)

/-- A scan, given a limit and the brackets that may open, takes the front of its text. -/
def Takes (scan : ℕ → ℕ → Scan α) (limit depth : ℕ) : Prop :=
  ∀ ⦃text rest : List Char⦄ ⦃result : α⦄, scan limit depth text = .ok (result, rest) →
    ∃ taken levels, text = taken ++ rest ∧ levels ≤ depth ∧
      Taken scan limit levels taken rest result

/-- The part `taken` of a container's text, up to its closing bracket, is read alike whatever
follows. The scan has a limit of its own on the entries. -/
structure TakenInside (scan : ℕ → ℕ → ℕ → Scan α) (limit fuel levels : ℕ) (taken : List Char)
    (result : α) : Prop where
  solid : Solid taken
  closing : Closing levels taken
  again : ∀ limit' depth' fuel' after, Enough limit limit' taken → levels ≤ depth' →
    Enough fuel fuel' taken → scan limit' depth' fuel' (taken ++ after) = .ok (result, after)

variable {scan : ℕ → ℕ → Scan α}

/-- A list is taken up to its closing bracket if its items are taken. -/
theorem items_taken (hscan : Takes scan limit depth) {list : List α}
    (h : items (scan limit depth) first fuel text = .ok (list, rest)) :
    ∃ taken levels, text = taken ++ rest ∧ levels ≤ depth ∧
      TakenInside (fun limit depth ↦ items (scan limit depth) first) limit fuel levels taken
        list := by
  induction fuel generalizing text list first with
  | zero => exact absurd h (by simp [items])
  | succ fuel ih =>
    obtain ⟨step, hstep, hread⟩ := bind_eq_ok.mp h
    cases step with
    | close tail =>
      obtain ⟨rfl, rfl⟩ := Prod.mk.inj (Except.ok.inj hread)
      obtain ⟨blanks, hblank, rfl⟩ := nextItem_eq_close_iff.mp hstep
      have hsolid : Solid [']'] := ⟨[], ']', rfl, rfl⟩
      refine ⟨blanks ++ [']'], 0, by simp, Nat.zero_le _, hsolid.append blanks,
        (turns_blanks hblank).closing (closing_bracket (Or.inl rfl)), ?_⟩
      intro limit' depth' fuel' after _ _ hfuel
      obtain ⟨larger, rfl, -⟩ := hfuel.succ
      exact bind_eq_ok.mpr ⟨_, nextItem_eq_close_iff.mpr ⟨blanks, hblank, by simp⟩, rfl⟩
    | entry tail =>
      obtain ⟨⟨item, afterItem⟩, hitem, hread⟩ := bind_eq_ok.mp hread
      obtain ⟨⟨more, last⟩, hmore, hread⟩ := bind_eq_ok.mp hread
      obtain ⟨rfl, rfl⟩ := Prod.mk.inj (Except.ok.inj hread)
      obtain ⟨gap, rfl, hgap, hstepAgain⟩ := nextItem_taken hstep
      obtain ⟨piece, levels, rfl, hlevels, hpiece⟩ := hscan hitem
      obtain ⟨others, deeper, rfl, hdeeper, hothers⟩ := ih hmore
      have hlong := hpiece.solid.length_pos
      refine ⟨gap ++ (piece ++ others), max levels deeper, by simp, max_le hlevels hdeeper,
        (hothers.solid.append piece).append gap,
        hgap.closing (hpiece.balanced.closing hothers.closing), ?_⟩
      intro limit' depth' fuel' after hlimit hdepth hfuel
      obtain ⟨hlevels', hdeeper'⟩ := max_le_iff.mp hdepth
      obtain ⟨larger, rfl, hlarger⟩ := hfuel.succ
      simp only [List.length_append] at hlarger
      rw [List.append_assoc, List.append_assoc]
      refine bind_eq_ok.mpr ⟨_, hstepAgain _ (hpiece.solid.head?_append _ _), ?_⟩
      refine bind_eq_ok.mpr ⟨_, hpiece.again _ _ _ (hlimit.mono ?_) hlevels'
        (Or.inl (hothers.solid.head?_append _ _)), ?_⟩
      · simp only [List.length_append]
        omega
      refine bind_eq_ok.mpr ⟨_, hothers.again _ _ _ _ (hlimit.mono ?_) hdeeper'
        (hlarger _ (by omega)), rfl⟩
      simp only [List.length_append]
      omega

/-- An object is taken up to its closing bracket if its values are taken. -/
theorem members_taken (hscan : Takes scan limit depth) {list : List (String × α)}
    (h : members limit (scan limit depth) first fuel text = .ok (list, rest)) :
    ∃ taken levels, text = taken ++ rest ∧ levels ≤ depth ∧
      TakenInside (fun limit depth ↦ members limit (scan limit depth) first) limit fuel levels taken
        list := by
  induction fuel generalizing text list first with
  | zero => exact absurd h (by simp [members])
  | succ fuel ih =>
    obtain ⟨step, hstep, hread⟩ := bind_eq_ok.mp h
    cases step with
    | close tail =>
      obtain ⟨rfl, rfl⟩ := Prod.mk.inj (Except.ok.inj hread)
      obtain ⟨blanks, hblank, rfl⟩ := nextMember_eq_close_iff.mp hstep
      have hsolid : Solid ['\x7d'] := ⟨[], '\x7d', rfl, rfl⟩
      refine ⟨blanks ++ ['\x7d'], 0, by simp, Nat.zero_le _, hsolid.append blanks,
        (turns_blanks hblank).closing (closing_bracket (Or.inr rfl)), ?_⟩
      intro limit' depth' fuel' after _ _ hfuel
      obtain ⟨larger, rfl, -⟩ := hfuel.succ
      exact bind_eq_ok.mpr ⟨_, nextMember_eq_close_iff.mpr ⟨blanks, hblank, by simp⟩, rfl⟩
    | entry tail =>
      obtain ⟨⟨name, afterName⟩, hname, hread⟩ := bind_eq_ok.mp hread
      obtain ⟨afterColon, hcolon, hread⟩ := bind_eq_ok.mp hread
      obtain ⟨⟨value, afterValue⟩, hvalue, hread⟩ := bind_eq_ok.mp hread
      obtain ⟨⟨more, last⟩, hmore, hread⟩ := bind_eq_ok.mp hread
      obtain ⟨rfl, rfl⟩ := Prod.mk.inj (Except.ok.inj hread)
      obtain ⟨gap, rfl, hgap, hstepAgain⟩ := nextMember_taken hstep
      obtain ⟨word, -, rfl, hword, hnameAgain⟩ := stringTail_taken hname
      obtain ⟨blanks, hblank, rfl⟩ := colon_eq_ok_iff.mp hcolon
      obtain ⟨piece, levels, rfl, hlevels, hpiece⟩ := hscan hvalue
      obtain ⟨others, deeper, rfl, hdeeper, hothers⟩ := ih hmore
      have hlong := hpiece.solid.length_pos
      have hcolonTurns : Turns .plain .plain [':'] := fun _ _ ↦ rfl
      have hfront : Turns .plain .plain (gap ++ (word ++ (blanks ++ [':']))) :=
        hgap.append (hword.append ((turns_blanks hblank).append hcolonTurns))
      refine ⟨gap ++ (word ++ (blanks ++ [':'])) ++ (piece ++ others), max levels deeper, by simp,
        max_le hlevels hdeeper, (hothers.solid.append piece).append _,
        hfront.closing (hpiece.balanced.closing hothers.closing), ?_⟩
      intro limit' depth' fuel' after hlimit hdepth hfuel
      obtain ⟨hlevels', hdeeper'⟩ := max_le_iff.mp hdepth
      obtain ⟨larger, rfl, hlarger⟩ := hfuel.succ
      simp only [List.length_append] at hlarger
      simp only [List.append_assoc, List.cons_append, List.nil_append]
      refine bind_eq_ok.mpr ⟨_, hstepAgain _, ?_⟩
      refine bind_eq_ok.mpr ⟨_, hnameAgain _ _ (hlimit.mono ?_), ?_⟩
      · simp only [List.length_append]
        omega
      refine bind_eq_ok.mpr ⟨_, colon_eq_ok_iff.mpr ⟨blanks, hblank, rfl⟩, ?_⟩
      refine bind_eq_ok.mpr ⟨_, hpiece.again _ _ _ (hlimit.mono ?_) hlevels'
        (Or.inl (hothers.solid.head?_append _ _)), ?_⟩
      · simp only [List.length_append]
        omega
      refine bind_eq_ok.mpr ⟨_, hothers.again _ _ _ _ (hlimit.mono ?_) hdeeper'
        (hlarger _ (by omega)), rfl⟩
      simp only [List.length_append]
      omega

/-! ### The readings of a value -/

/-- The ways in which a value can be read at the front of a text. -/
inductive Reading (limit : ℕ) (inner : Option (Scan Json)) (text rest : List Char) : Json → Prop
  | string {s : String} {tail : List Char} (hskip : skipSpace text = '"' :: tail)
    (hread : stringTail limit tail = .ok (s, rest)) : Reading limit inner text rest (.string s)
  | array {read : Scan Json} {list : List Json} {tail : List Char} (hinner : inner = some read)
    (hskip : skipSpace text = '[' :: tail) (hread : items read true limit tail = .ok (list, rest)) :
    Reading limit inner text rest (.array list)
  | object {read : Scan Json} {entries : List (String × Json)} {tail : List Char}
    (hinner : inner = some read) (hskip : skipSpace text = '\x7b' :: tail)
    (hread : members limit read true limit tail = .ok (entries, rest)) :
    Reading limit inner text rest (.object (Members.ofList entries))
  | null {tail : List Char} (hskip : skipSpace text = 'n' :: tail)
    (hread : word "ull".toList tail = .ok rest) : Reading limit inner text rest .null
  | true {tail : List Char} (hskip : skipSpace text = 't' :: tail)
    (hread : word "rue".toList tail = .ok rest) : Reading limit inner text rest (.bool Bool.true)
  | false {tail : List Char} (hskip : skipSpace text = 'f' :: tail)
    (hread : word "alse".toList tail = .ok rest) : Reading limit inner text rest (.bool Bool.false)
  | number {n : Number} {c : Char} {tail : List Char} (hskip : skipSpace text = c :: tail)
    (hc : c = '-' ∨ isDigit c = Bool.true) (hread : numberLiteral (c :: tail) = .ok (n, rest)) :
    Reading limit inner text rest (.number n)

/-- A character that starts a number starts no other value. -/
theorem ne_of_numberStart {c : Char} (hc : c = '-' ∨ isDigit c = true) :
    ∀ d ∈ ['"', '[', '\x7b', 'n', 't', 'f'], c ≠ d := by
  intro d hd heq
  rcases hc with hc | hc
  · rw [heq] at hc
    subst hc
    exact absurd hd (by decide)
  · rw [heq] at hc
    fin_cases hd <;> exact absurd hc (by decide)

theorem reading_of_valueWith {limit : ℕ} {inner : Option (Scan Json)} {text rest : List Char}
    {document : Json} (h : valueWith limit inner text = .ok (document, rest)) :
    Reading limit inner text rest document := by
  unfold valueWith at h
  split at h
  · exact absurd h (by simp)
  rename_i c tail hskip
  by_cases hquote : c = '"'
  · rw [if_pos hquote] at h
    obtain ⟨⟨s, after⟩, hs, h⟩ := bind_eq_ok.mp h
    obtain ⟨rfl, rfl⟩ := Prod.mk.inj (Except.ok.inj h)
    exact .string (hquote ▸ hskip) hs
  rw [if_neg hquote] at h
  by_cases hlist : c = '['
  · rw [if_pos hlist] at h
    split at h
    · exact absurd h (by simp)
    · obtain ⟨⟨list, after⟩, hitems, h⟩ := bind_eq_ok.mp h
      obtain ⟨rfl, rfl⟩ := Prod.mk.inj (Except.ok.inj h)
      exact .array rfl (hlist ▸ hskip) hitems
  rw [if_neg hlist] at h
  by_cases hobject : c = '\x7b'
  · rw [if_pos hobject] at h
    split at h
    · exact absurd h (by simp)
    · obtain ⟨⟨entries, after⟩, hentries, h⟩ := bind_eq_ok.mp h
      obtain ⟨rfl, rfl⟩ := Prod.mk.inj (Except.ok.inj h)
      exact .object rfl (hobject ▸ hskip) hentries
  rw [if_neg hobject] at h
  by_cases hnull : c = 'n'
  · rw [if_pos hnull] at h
    obtain ⟨after, hword, h⟩ := bind_eq_ok.mp h
    obtain ⟨rfl, rfl⟩ := Prod.mk.inj (Except.ok.inj h)
    exact .null (hnull ▸ hskip) hword
  rw [if_neg hnull] at h
  by_cases htrue : c = 't'
  · rw [if_pos htrue] at h
    obtain ⟨after, hword, h⟩ := bind_eq_ok.mp h
    obtain ⟨rfl, rfl⟩ := Prod.mk.inj (Except.ok.inj h)
    exact .true (htrue ▸ hskip) hword
  rw [if_neg htrue] at h
  by_cases hfalse : c = 'f'
  · rw [if_pos hfalse] at h
    obtain ⟨after, hword, h⟩ := bind_eq_ok.mp h
    obtain ⟨rfl, rfl⟩ := Prod.mk.inj (Except.ok.inj h)
    exact .false (hfalse ▸ hskip) hword
  rw [if_neg hfalse] at h
  by_cases hnumber : c = '-' ∨ isDigit c = true
  · rw [if_pos hnumber] at h
    obtain ⟨⟨n, after⟩, hn, h⟩ := bind_eq_ok.mp h
    obtain ⟨rfl, rfl⟩ := Prod.mk.inj (Except.ok.inj h)
    exact .number hskip hnumber hn
  · rw [if_neg hnumber] at h
    exact absurd h (by simp)

theorem valueWith_of_reading {limit : ℕ} {inner : Option (Scan Json)} {text rest : List Char}
    {document : Json} (h : Reading limit inner text rest document) :
    valueWith limit inner text = .ok (document, rest) := by
  unfold valueWith
  cases h with
  | string hskip hread =>
    rw [hskip]
    exact bind_eq_ok.mpr ⟨_, hread, rfl⟩
  | array hinner hskip hread =>
    rw [hskip, hinner]
    exact bind_eq_ok.mpr ⟨_, hread, rfl⟩
  | object hinner hskip hread =>
    rw [hskip, hinner]
    exact bind_eq_ok.mpr ⟨_, hread, rfl⟩
  | null hskip hread =>
    rw [hskip]
    exact bind_eq_ok.mpr ⟨_, hread, rfl⟩
  | true hskip hread =>
    rw [hskip]
    exact bind_eq_ok.mpr ⟨_, hread, rfl⟩
  | false hskip hread =>
    rw [hskip]
    exact bind_eq_ok.mpr ⟨_, hread, rfl⟩
  | number hskip hc hread =>
    have hother := ne_of_numberStart hc
    simp only [List.mem_cons, List.not_mem_nil, or_false, forall_eq_or_imp, forall_eq] at hother
    obtain ⟨hquote, hlist, hobject, hnull, htrue, hfalse⟩ := hother
    simp only [hskip, if_neg hquote, if_neg hlist, if_neg hobject, if_neg hnull, if_neg htrue,
      if_neg hfalse, if_pos hc]
    exact bind_eq_ok.mpr ⟨_, hread, rfl⟩

/-! ### Documents -/

theorem exists_inner (limit depth : ℕ) : ∃ inner, value limit depth = valueWith limit inner := by
  cases depth with
  | zero => exact ⟨_, rfl⟩
  | succ depth => exact ⟨_, rfl⟩

/-- Blanks before a value are passed. -/
theorem value_skipSpace (limit depth : ℕ) (text : List Char) :
    value limit depth (skipSpace text) = value limit depth text := by
  obtain ⟨inner, hinner⟩ := exists_inner limit depth
  have hskip : skipSpace (skipSpace text) = skipSpace text := List.dropWhile_idempotent isSpace text
  rw [hinner, valueWith, valueWith, hskip]

variable {document : Json}

/-- A part that holds no bracket is taken if it is read however many brackets may open. -/
theorem taken_scalar (hsolid : Solid taken) (hturns : Turns .plain .plain taken)
    (hagain : ∀ inner limit' after, Enough limit limit' taken → Follows rest after →
      Reading limit' inner (taken ++ after) after document) :
    Taken value limit 0 taken rest document := by
  refine ⟨hsolid, hturns.balanced, fun limit' depth' after hlimit _ hfollows ↦ ?_⟩
  obtain ⟨inner, hinner⟩ := exists_inner limit' depth'
  rw [hinner]
  exact valueWith_of_reading (hagain inner limit' after hlimit hfollows)

/-- A word is taken after the blanks before it. -/
theorem taken_word {blanks expected : List Char} {c : Char} (hblank : skipSpace blanks = [])
    (hword : ∀ d ∈ c :: expected, IsNeutral d ∧ isSpace d = false)
    (hagain : ∀ {inner limit' text after}, skipSpace text = c :: (expected ++ after) →
      Reading limit' inner text after document) :
    Taken value limit 0 (blanks ++ c :: expected) rest document := by
  have hc : isSpace c = false := (hword c List.mem_cons_self).2
  have hsolid := solid_of_forall (fun d hd ↦ (hword d hd).2) (List.cons_ne_nil c expected)
  have hturns := turns_of_neutral fun d hd ↦ (hword d hd).1
  refine taken_scalar (hsolid.append blanks) ((turns_blanks hblank).append hturns) ?_
  intro inner limit' after _ _
  apply hagain
  rw [List.append_assoc, List.cons_append, skipSpace_blanks hblank hc]

/-- A bracketed value is taken after the blanks before it, with one bracket more than inside. -/
theorem taken_bracket {β : Type} {inside : ℕ → ℕ → ℕ → Scan β} {result : β} {blanks : List Char}
    {c : Char} (hblank : skipSpace blanks = []) (hc : c = '[' ∨ c = '\x7b')
    (h : TakenInside inside limit limit levels taken result)
    (hagain : ∀ {limit' deeper text tail after}, skipSpace text = c :: tail →
      inside limit' deeper limit' tail = .ok (result, after) →
      value limit' (deeper + 1) text = .ok (document, after)) :
    Taken value limit (levels + 1) (blanks ++ c :: taken) rest document := by
  have hspace : isSpace c = false := by rcases hc with rfl | rfl <;> rfl
  refine ⟨h.solid.append [c] |>.append blanks, ?_, fun limit' depth' after hlimit hdepth _ ↦ ?_⟩
  · have hbalanced := (turns_blanks hblank).balanced.append (balanced_bracket hc h.closing)
    rwa [Nat.zero_max] at hbalanced
  · obtain ⟨deeper, rfl⟩ : ∃ deeper, depth' = deeper + 1 := ⟨depth' - 1, by omega⟩
    have hmono : Enough limit limit' taken := by
      refine hlimit.mono ?_
      simp only [List.length_append, List.length_cons]
      omega
    rw [List.append_assoc, List.cons_append]
    exact hagain (skipSpace_blanks hblank hspace _)
      (h.again limit' deeper limit' after hmono (by omega) hmono)

/-- What a value is read from is taken if the same holds of the values inside its brackets. -/
theorem taken_of_reading {inner : Option (Scan Json)}
    (hinner : ∀ read, inner = some read → ∃ deeper, depth = deeper + 1 ∧
      read = value limit deeper ∧ Takes value limit deeper)
    (h : Reading limit inner text rest document) :
    ∃ taken levels, text = taken ++ rest ∧ levels ≤ depth ∧
      Taken value limit levels taken rest document := by
  cases h with
  | string hskip hread =>
    obtain ⟨blanks, hblank, hquote, rfl⟩ := exists_blanks hskip
    obtain ⟨piece, hsolid, rfl, hturns, hagain⟩ := stringTail_taken hread
    refine ⟨blanks ++ '"' :: piece, 0, by simp, Nat.zero_le _, ?_⟩
    refine taken_scalar ((hsolid.append ['"']).append blanks)
      ((turns_blanks hblank).append (turns_quote.append hturns)) ?_
    intro inner limit' after hlimit _
    rw [List.append_assoc, List.cons_append]
    refine .string (skipSpace_blanks hblank hquote _) (hagain limit' after (hlimit.mono ?_))
    simp only [List.length_append, List.length_cons]
    omega
  | array hsome hskip hread =>
    obtain ⟨deeper, rfl, rfl, htakes⟩ := hinner _ hsome
    obtain ⟨blanks, hblank, -, rfl⟩ := exists_blanks hskip
    obtain ⟨piece, levels, rfl, hlevels, hpiece⟩ := items_taken htakes hread
    refine ⟨blanks ++ '[' :: piece, levels + 1, by simp, Nat.succ_le_succ hlevels, ?_⟩
    exact taken_bracket hblank (Or.inl rfl) hpiece fun hskip hread ↦
      valueWith_of_reading (.array rfl hskip hread)
  | object hsome hskip hread =>
    obtain ⟨deeper, rfl, rfl, htakes⟩ := hinner _ hsome
    obtain ⟨blanks, hblank, -, rfl⟩ := exists_blanks hskip
    obtain ⟨piece, levels, rfl, hlevels, hpiece⟩ := members_taken htakes hread
    refine ⟨blanks ++ '\x7b' :: piece, levels + 1, by simp, Nat.succ_le_succ hlevels, ?_⟩
    exact taken_bracket hblank (Or.inr rfl) hpiece fun hskip hread ↦
      valueWith_of_reading (.object rfl hskip hread)
  | null hskip hread =>
    obtain ⟨blanks, hblank, -, rfl⟩ := exists_blanks hskip
    rw [word_eq_ok_iff] at hread
    subst hread
    refine ⟨blanks ++ 'n' :: "ull".toList, 0, by simp, Nat.zero_le _, ?_⟩
    exact taken_word hblank (by simp [IsNeutral, isSpace]) fun hskip ↦
      .null hskip (word_eq_ok_iff.mpr rfl)
  | true hskip hread =>
    obtain ⟨blanks, hblank, -, rfl⟩ := exists_blanks hskip
    rw [word_eq_ok_iff] at hread
    subst hread
    refine ⟨blanks ++ 't' :: "rue".toList, 0, by simp, Nat.zero_le _, ?_⟩
    exact taken_word hblank (by simp [IsNeutral, isSpace]) fun hskip ↦
      .true hskip (word_eq_ok_iff.mpr rfl)
  | false hskip hread =>
    obtain ⟨blanks, hblank, -, rfl⟩ := exists_blanks hskip
    rw [word_eq_ok_iff] at hread
    subst hread
    refine ⟨blanks ++ 'f' :: "alse".toList, 0, by simp, Nat.zero_le _, ?_⟩
    exact taken_word hblank (by simp [IsNeutral, isSpace]) fun hskip ↦
      .false hskip (word_eq_ok_iff.mpr rfl)
  | @number n c tail hskip hc hread =>
    obtain ⟨blanks, hblank, hspace, rfl⟩ := exists_blanks hskip
    obtain ⟨piece, hsolid, hpiece, hturns, hagain⟩ := numberLiteral_taken hread
    obtain ⟨d, word, rfl⟩ := List.exists_cons_of_length_pos hsolid.length_pos
    obtain ⟨rfl, rfl⟩ := List.cons.inj hpiece
    refine ⟨blanks ++ c :: word, 0, by simp, Nat.zero_le _, ?_⟩
    refine taken_scalar (hsolid.append blanks) ((turns_blanks hblank).append hturns) ?_
    intro inner limit' after _ hfollows
    rw [List.append_assoc, List.cons_append]
    exact .number (skipSpace_blanks hblank hspace _) hc (hagain after hfollows)

/-- A document is taken from the front of its text. -/
theorem takes_value (limit depth : ℕ) : Takes value limit depth := by
  induction depth with
  | zero =>
    intro text rest document h
    exact taken_of_reading (fun read hread ↦ absurd hread (by simp)) (reading_of_valueWith h)
  | succ depth ih =>
    intro text rest document h
    refine taken_of_reading (fun read hread ↦ ?_) (reading_of_valueWith h)
    exact ⟨depth, rfl, (Option.some.inj hread).symm, ih⟩

/-! ### Longer texts -/

/-- A string is read alike at the front of a longer text. -/
theorem stringTail_append {s : String} (hlimit : limit ≤ limit')
    (h : stringTail limit text = .ok (s, rest)) :
    stringTail limit' (text ++ extra) = .ok (s, rest ++ extra) := by
  obtain ⟨taken, -, rfl, -, hagain⟩ := stringTail_taken h
  rw [List.append_assoc]
  exact hagain limit' (rest ++ extra) (Or.inl hlimit)

/-- A document is read alike at the front of a longer text, also with more brackets to open. -/
theorem value_append (hextra : Separated extra) (hdepth : depth ≤ depth') (hlimit : limit ≤ limit')
    (h : value limit depth text = .ok (document, rest)) :
    value limit' depth' (text ++ extra) = .ok (document, rest ++ extra) := by
  obtain ⟨taken, levels, rfl, hlevels, htaken⟩ := takes_value limit depth h
  have hfollows : Follows rest (rest ++ extra) := by
    cases rest with
    | nil => exact Or.inr hextra
    | cons c rest => exact Or.inl rfl
  rw [List.append_assoc]
  exact htaken.again limit' depth' _ (Or.inl hlimit) (hlevels.trans hdepth) hfollows

end Segmentation.Json
