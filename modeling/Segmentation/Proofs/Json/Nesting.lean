import Mathlib
import Segmentation.Json.Reader

/-!
# The nesting of a text

`nesting` counts the brackets that are open at once in a text, whether or not the text is JSON;
brackets inside strings do not count. It is found in one walk along the text, so the walks along
parts of a text can be put together: `Turns` describes the parts that hold no bracket outside a
string, `Balanced` those that close every bracket they open, and `Closing` those that close one
bracket more.
-/

set_option autoImplicit false

namespace Segmentation.Json

/-! ### The walk -/

/-- What a character is part of: nothing of the kind, a string, or an escape in a string. -/
inductive Mode where
  | plain
  | quoted
  | escaped

/-- What a walk along a text has seen so far. -/
structure Walk where
  /-- The brackets that are open. -/
  opened : ℕ
  /-- The most brackets that were open at once. -/
  peak : ℕ
  /-- What the next character is part of. -/
  mode : Mode

/-- One step of a walk. -/
def Walk.step (walk : Walk) (c : Char) : Walk :=
  match walk.mode with
  | .escaped => { walk with mode := .quoted }
  | .quoted =>
    if c = '"' then { walk with mode := .plain }
    else if c = '\\' then { walk with mode := .escaped }
    else walk
  | .plain =>
    if c = '"' then { walk with mode := .quoted }
    else if c = '[' ∨ c = '\x7b' then
      ⟨walk.opened + 1, max walk.peak (walk.opened + 1), .plain⟩
    else if c = ']' ∨ c = '\x7d' then { walk with opened := walk.opened - 1 }
    else walk

/-- The most brackets that are open at once in a text, those inside strings apart. -/
def nesting (text : List Char) : ℕ := (text.foldl Walk.step ⟨0, 0, .plain⟩).peak

/-! ### Parts without brackets -/

/-- Outside a string, the character changes nothing. -/
def IsNeutral (c : Char) : Prop := c ∉ ['"', '[', '\x7b', ']', '\x7d']

instance : DecidablePred IsNeutral := fun c ↦ inferInstanceAs (Decidable (c ∉ _))

/-- The part leads from one mode to another and holds no bracket outside a string. -/
def Turns (before after : Mode) (part : List Char) : Prop :=
  ∀ opened peak, part.foldl Walk.step ⟨opened, peak, before⟩ = ⟨opened, peak, after⟩

variable {part rest : List Char} {first middle last : Mode}

theorem Turns.append (hpart : Turns first middle part) (hrest : Turns middle last rest) :
    Turns first last (part ++ rest) := by
  intro opened peak
  rw [List.foldl_append, hpart, hrest]

theorem turns_of_neutral (h : ∀ c ∈ part, IsNeutral c) : Turns .plain .plain part := by
  intro opened peak
  induction part with
  | nil => rfl
  | cons c part ih =>
    have hc := h c List.mem_cons_self
    simp only [IsNeutral, List.mem_cons, List.not_mem_nil, or_false, not_or] at hc
    obtain ⟨hquote, hlist, hobject, hlistEnd, hobjectEnd⟩ := hc
    have hstep : Walk.step ⟨opened, peak, .plain⟩ c = ⟨opened, peak, .plain⟩ := by
      simp [Walk.step, hquote, hlist, hobject, hlistEnd, hobjectEnd]
    rw [List.foldl_cons, hstep]
    exact ih fun d hd ↦ h d (List.mem_cons_of_mem _ hd)

/-- The characters of a string that are not escaped. -/
theorem turns_of_unescaped (h : ∀ c ∈ part, c ≠ '"' ∧ c ≠ '\\') : Turns .quoted .quoted part := by
  intro opened peak
  induction part with
  | nil => rfl
  | cons c part ih =>
    obtain ⟨hquote, hbackslash⟩ := h c List.mem_cons_self
    have hstep : Walk.step ⟨opened, peak, .quoted⟩ c = ⟨opened, peak, .quoted⟩ := by
      simp [Walk.step, hquote, hbackslash]
    rw [List.foldl_cons, hstep]
    exact ih fun d hd ↦ h d (List.mem_cons_of_mem _ hd)

theorem turns_quote : Turns .plain .quoted ['"'] := fun _ _ ↦ rfl

theorem turns_endQuote : Turns .quoted .plain ['"'] := fun _ _ ↦ rfl

theorem turns_backslash : Turns .quoted .escaped ['\\'] := fun _ _ ↦ rfl

theorem turns_escaped (c : Char) : Turns .escaped .quoted [c] := fun _ _ ↦ rfl

/-! ### Parts with brackets -/

/-- The part closes the brackets that it opens, of which at most some are open at once. -/
def Balanced (levels : ℕ) (part : List Char) : Prop :=
  ∀ opened peak, opened ≤ peak →
    part.foldl Walk.step ⟨opened, peak, .plain⟩ = ⟨opened, max peak (opened + levels), .plain⟩

/-- The part closes the brackets that it opens, and at its end one more. -/
def Closing (levels : ℕ) (part : List Char) : Prop :=
  ∀ opened peak, opened + 1 ≤ peak →
    part.foldl Walk.step ⟨opened + 1, peak, .plain⟩ =
      ⟨opened, max peak (opened + 1 + levels), .plain⟩

variable {levels more : ℕ}

theorem Turns.balanced (h : Turns .plain .plain part) : Balanced 0 part := by
  intro opened peak hpeak
  rw [h, Nat.add_zero, Nat.max_eq_left hpeak]

theorem Balanced.append (hpart : Balanced levels part) (hrest : Balanced more rest) :
    Balanced (max levels more) (part ++ rest) := by
  intro opened peak hpeak
  rw [List.foldl_append, hpart opened peak hpeak, hrest opened _ (by omega), Walk.mk.injEq]
  exact ⟨rfl, by omega, rfl⟩

theorem Balanced.closing (hpart : Balanced levels part) (hrest : Closing more rest) :
    Closing (max levels more) (part ++ rest) := by
  intro opened peak hpeak
  rw [List.foldl_append, hpart _ peak hpeak, hrest opened _ (by omega), Walk.mk.injEq]
  exact ⟨rfl, by omega, rfl⟩

theorem Turns.closing (hpart : Turns .plain .plain part) (hrest : Closing levels rest) :
    Closing levels (part ++ rest) := by
  intro opened peak hpeak
  rw [List.foldl_append, hpart, hrest opened peak hpeak]

theorem closing_bracket {c : Char} (hc : c = ']' ∨ c = '\x7d') : Closing 0 [c] := by
  intro opened peak hpeak
  have hstep : Walk.step ⟨opened + 1, peak, .plain⟩ c = ⟨opened, peak, .plain⟩ := by
    rcases hc with rfl | rfl <;> rfl
  rw [List.foldl_cons, List.foldl_nil, hstep, Nat.add_zero, Nat.max_eq_left hpeak]

theorem balanced_bracket {c : Char} (hc : c = '[' ∨ c = '\x7b') (h : Closing levels rest) :
    Balanced (levels + 1) (c :: rest) := by
  intro opened peak hpeak
  have hstep : Walk.step ⟨opened, peak, .plain⟩ c =
      ⟨opened + 1, max peak (opened + 1), .plain⟩ := by
    rcases hc with rfl | rfl <;> rfl
  rw [List.foldl_cons, hstep, h opened _ (by omega), Walk.mk.injEq]
  exact ⟨rfl, by omega, rfl⟩

theorem nesting_of_balanced (h : Balanced levels part) : nesting part = levels := by
  rw [nesting, h 0 0 le_rfl, Nat.zero_add, Nat.zero_max]

end Segmentation.Json
