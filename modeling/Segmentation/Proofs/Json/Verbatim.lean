import Mathlib
import Segmentation.Proofs.Json.Document

/-!
# Documents as they are written

A document that is read has one member of each name. `verbatim` reads the same texts but keeps the
members of an object as they are written, in their order and with every repetition; `settled` then
lets the last member of each name count, at every depth. Reading a value is reading it verbatim and
settling it (`value_eq_verbatim`), so nothing else happens to repeated names.

How many brackets may open matters only to texts that open more (`value_eq_ok_iff_nesting`).
-/

set_option autoImplicit false

namespace Segmentation.Json

variable {α β : Type} {limit depth : ℕ} {text rest : List Char}

/-! ### Documents with repeated names -/

/-- A value whose bracketed parts are read by another scan, with the members of an object as they
are written. -/
def verbatimWith (limit : ℕ) (inner : Option (Scan Json)) : Scan Json := fun text ↦
  match skipSpace text, inner with
  | '[' :: rest, some read => do
    let (list, rest) ← items read true limit rest
    .ok (.array list, rest)
  | '\x7b' :: rest, some read => do
    let (entries, rest) ← members limit read true limit rest
    .ok (.object entries, rest)
  | _, _ => valueWith limit none text

/-- A value in which a number of brackets may be open at once, with members as they are written. -/
def verbatim (limit : ℕ) : ℕ → Scan Json
  | 0 => verbatimWith limit none
  | depth + 1 => verbatimWith limit (some (verbatim limit depth))

mutual

/-- The document in which the last member of each name counts, at every depth. -/
def settled : Json → Json
  | .array items => .array (settledItems items)
  | .object members => .object (Members.ofList (settledMembers members))
  | .null => .null
  | .bool b => .bool b
  | .number n => .number n
  | .string s => .string s

def settledItems : List Json → List Json
  | [] => []
  | item :: rest => settled item :: settledItems rest

def settledMembers : List (String × Json) → List (String × Json)
  | [] => []
  | (name, value) :: rest => (name, settled value) :: settledMembers rest

end

theorem settledItems_eq_map (items : List Json) : settledItems items = items.map settled := by
  induction items with
  | nil => rfl
  | cons item rest ih => rw [settledItems, ih, List.map_cons]

theorem settledMembers_eq_map (members : List (String × Json)) :
    settledMembers members = members.map fun member ↦ (member.1, settled member.2) := by
  induction members with
  | nil => rfl
  | cons member rest ih =>
    obtain ⟨name, value⟩ := member
    rw [settledMembers, ih, List.map_cons]

theorem settled_of_isScalar {document : Json} (h : document.IsScalar) :
    document.settled = document := by
  cases document with
  | array items => exact h.elim
  | object members => exact h.elim
  | _ => rfl

/-! ### Results changed on the way -/

/-- A scan with its results changed. -/
def Scan.map (f : α → β) (scan : Scan α) : Scan β := fun text ↦
  (scan text).map (Prod.map f id)

theorem items_map (f : α → β) (read : Scan α) (first : Bool) (limit : ℕ) :
    items (read.map f) first limit = Scan.map (List.map f) (items read first limit) := by
  funext text
  induction limit generalizing first text with
  | zero => rfl
  | succ limit ih =>
    simp only [items, Scan.map]
    rcases nextItem first text with fault | (rest | rest)
    · rfl
    · rfl
    · simp only [bind, Except.bind]
      rcases read rest with fault | ⟨item, rest⟩
      · rfl
      · simp only [Except.map, Prod.map, id, ih, Scan.map]
        rcases items read false limit rest with fault | ⟨more, rest⟩ <;> rfl

theorem members_map (f : α → β) (bound : ℕ) (read : Scan α) (first : Bool) (limit : ℕ) :
    members bound (read.map f) first limit =
      Scan.map (List.map fun member ↦ (member.1, f member.2))
        (members bound read first limit) := by
  funext text
  induction limit generalizing first text with
  | zero => rfl
  | succ limit ih =>
    simp only [members, Scan.map]
    rcases nextMember first text with fault | (rest | rest)
    · rfl
    · rfl
    · simp only [bind, Except.bind]
      rcases stringTail bound rest with fault | ⟨name, rest⟩
      · rfl
      simp only
      rcases colon rest with fault | rest
      · rfl
      simp only
      rcases read rest with fault | ⟨value, rest⟩
      · rfl
      · simp only [Except.map, Prod.map, id, ih, Scan.map]
        rcases members bound read false limit rest with fault | ⟨more, rest⟩ <;> rfl

/-! ### Reading and settling -/

theorem isScalar_of_valueWith_none {document : Json}
    (h : valueWith limit none text = .ok (document, rest)) : document.IsScalar := by
  cases reading_of_valueWith h with
  | array hinner => exact absurd hinner (by simp)
  | object hinner => exact absurd hinner (by simp)
  | _ => trivial

/-- A value that starts with no bracket is read alike however many brackets may open. -/
theorem valueWith_eq_none (inner : Option (Scan Json))
    (hlist : ∀ rest, skipSpace text ≠ '[' :: rest)
    (hobject : ∀ rest, skipSpace text ≠ '\x7b' :: rest) :
    valueWith limit inner text = valueWith limit none text := by
  unfold valueWith
  split
  · rfl
  rename_i c rest hskip
  have hlist' : c ≠ '[' := fun hc ↦ hlist rest (hc ▸ hskip)
  have hobject' : c ≠ '\x7b' := fun hc ↦ hobject rest (hc ▸ hskip)
  simp only [if_neg hlist', if_neg hobject']

/-- Settling changes nothing where no bracket may open. -/
theorem map_settled_valueWith_none (limit : ℕ) :
    Scan.map settled (valueWith limit none) = valueWith limit none := by
  funext text
  rw [Scan.map]
  cases hread : valueWith limit none text with
  | error fault => rfl
  | ok result =>
    obtain ⟨document, rest⟩ := result
    simp only [Except.map, Prod.map, id, settled_of_isScalar (isScalar_of_valueWith_none hread)]

/-- Settling the parts inside brackets as they are read, and reading the whole as it is written and
settling it then, come to the same. -/
theorem valueWith_map_settled (limit : ℕ) (inner : Option (Scan Json)) :
    valueWith limit (inner.map (Scan.map settled)) =
      Scan.map settled (verbatimWith limit inner) := by
  funext text
  -- What starts with no bracket, or with one that may not open, does not look at the parts.
  have hscalar : (∀ rest read, skipSpace text = '[' :: rest → inner = some read → False) →
      (∀ rest read, skipSpace text = '\x7b' :: rest → inner = some read → False) →
      valueWith limit (inner.map (Scan.map settled)) text =
        Scan.map settled (valueWith limit none) text := by
    intro hlist hobject
    rw [map_settled_valueWith_none]
    cases inner with
    | none => rfl
    | some read =>
      exact valueWith_eq_none _ (fun rest hskip ↦ hlist rest read hskip rfl)
        fun rest hskip ↦ hobject rest read hskip rfl
  show _ = (verbatimWith limit inner text).map (Prod.map settled id)
  simp only [verbatimWith]
  split
  · rename_i rest read hskip
    simp only [valueWith, hskip, Option.map_some, items_map, Scan.map]
    rcases items read true limit rest with fault | ⟨list, rest⟩
    · rfl
    · simp only [Except.map, Prod.map, id, bind, Except.bind, settled, settledItems_eq_map]
      rfl
  · rename_i rest read hskip
    simp only [valueWith, hskip, Option.map_some, members_map, Scan.map]
    rcases members limit read true limit rest with fault | ⟨entries, rest⟩
    · rfl
    · simp only [Except.map, Prod.map, id, bind, Except.bind, settled, settledMembers_eq_map]
      rfl
  · rename_i hlist hobject
    exact hscalar hlist hobject

/-- A document is read by reading it as it is written and settling it. -/
theorem value_eq_verbatim (limit depth : ℕ) :
    value limit depth = Scan.map settled (verbatim limit depth) := by
  induction depth with
  | zero => exact valueWith_map_settled limit none
  | succ depth ih =>
    rw [value, ih]
    exact valueWith_map_settled limit (some (verbatim limit depth))

theorem value_eq_ok_iff_verbatim {document : Json} :
    value limit depth text = .ok (document, rest) ↔
      ∃ written, verbatim limit depth text = .ok (written, rest) ∧ written.settled = document := by
  rw [value_eq_verbatim, Scan.map]
  rcases verbatim limit depth text with fault | ⟨written, after⟩ <;> simp [Except.map, and_comm]

/-! ### The depth of a document -/

/-- How many brackets may open decides only whether a text may open as many as it does. -/
theorem value_eq_ok_iff_nesting {document : Json} (hrest : skipSpace rest = []) :
    value limit depth text = .ok (document, rest) ↔
      nesting text ≤ depth ∧ ∃ depth', value limit depth' text = .ok (document, rest) := by
  have htaken : ∀ {depth'}, value limit depth' text = .ok (document, rest) →
      nesting text ≤ depth' ∧ ∀ depth, nesting text ≤ depth →
        value limit depth text = .ok (document, rest) := by
    intro depth' h
    obtain ⟨taken, levels, rfl, hlevels, hread⟩ := takes_value limit depth' h
    have hbalanced := hread.balanced.append (turns_blanks hrest).balanced
    rw [Nat.max_zero] at hbalanced
    rw [nesting_of_balanced hbalanced]
    exact ⟨hlevels, fun depth hdepth ↦
      hread.again limit depth rest (Or.inl le_rfl) hdepth (Or.inl rfl)⟩
  constructor
  · exact fun h ↦ ⟨(htaken h).1, depth, h⟩
  · rintro ⟨hnesting, depth', h⟩
    exact (htaken h).2 depth hnesting

end Segmentation.Json
