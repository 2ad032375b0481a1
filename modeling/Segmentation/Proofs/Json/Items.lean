import Mathlib
import Segmentation.Proofs.Json.Document

/-!
# Lists of texts

A list is read from the texts of its items, joined by commas, if each text is that of an item
(`IsItem`): what the scan for items reads, with blanks around it. `items_intercalate` walks through
the texts, of which the first follows the bracket and every other one a comma. An object is read
from the texts of its members in the same way (`IsMember`, `members_intercalate`). In both, blanks
may stand before the closing bracket.
-/

set_option autoImplicit false

namespace Segmentation.Json

/-! ### Steps to an item -/

/-- The text starts with a character that neither is passed over nor closes a list. -/
def StartsValue (text : List Char) : Prop :=
  ∃ c tail, text = c :: tail ∧ isSpace c = false ∧ c ≠ ']'

variable {text blanks before after : List Char}

theorem StartsValue.append (h : StartsValue text) (rest : List Char) :
    StartsValue (text ++ rest) := by
  obtain ⟨c, tail, rfl, hc⟩ := h
  exact ⟨c, tail ++ rest, rfl, hc⟩

/-- The first item follows the bracket. -/
theorem nextItem_first (hblank : skipSpace blanks = []) (h : StartsValue text) :
    nextItem true (blanks ++ text) = .ok (.entry text) := by
  obtain ⟨c, tail, rfl, hspace, hclose⟩ := h
  simp only [nextItem, skipSpace_blanks hblank hspace, if_neg hclose, if_true]

/-- Every other item follows a comma. -/
theorem nextItem_comma (hbefore : skipSpace before = []) (hafter : skipSpace after = [])
    (h : StartsValue text) : nextItem false (before ++ ',' :: (after ++ text)) =
      .ok (.entry text) := by
  have hcomma : isSpace ',' = false := rfl
  obtain ⟨c, tail, rfl, hspace, hclose⟩ := h
  simp only [nextItem, skipSpace_blanks hbefore hcomma, skipSpace_blanks hafter hspace]
  rw [if_neg (by decide), if_neg Bool.false_ne_true, if_pos trivial, if_neg hclose]

/-! ### Joined texts -/

theorem intercalate_cons (first : List Char) (others : List (List Char)) :
    List.intercalate [','] (first :: others) = first ++ others.flatMap (',' :: ·) := by
  induction others generalizing first with
  | nil => simp
  | cons second others ih =>
    rw [List.intercalate_cons_cons, ih]
    simp

theorem length_lt_flatMap {texts : List (List Char)} (h : text ∈ texts) :
    text.length < (texts.flatMap (',' :: ·)).length := by
  have hmem : ',' :: text ∈ texts.map (',' :: ·) := List.mem_map_of_mem h
  rw [List.flatMap_def]
  exact (List.sublist_flatten_of_mem hmem).length_le

/-- If each entry has characters, there are fewer entries than characters. -/
theorem length_le_flatMap {ι : Type} (entries : List ι) {chars : ι → List Char}
    (hpos : ∀ entry ∈ entries, 0 < (chars entry).length) :
    entries.length ≤ (entries.flatMap chars).length := by
  rw [List.length_flatMap]
  refine le_of_eq_of_le (List.length_map _).symm (List.length_le_sum_of_one_le _ fun n hn ↦ ?_)
  obtain ⟨entry, hentry, rfl⟩ := List.mem_map.mp hn
  exact hpos entry hentry

/-- Joined by commas, there is about a character for each text, and none is longer than all. -/
theorem length_le_intercalate (texts : List (List Char)) :
    texts.length ≤ (List.intercalate [','] texts).length + 1 ∧
      ∀ text ∈ texts, text.length ≤ (List.intercalate [','] texts).length := by
  cases texts with
  | nil => exact ⟨Nat.zero_le _, fun text htext ↦ absurd htext List.not_mem_nil⟩
  | cons first others =>
    have hcount : others.length ≤ (others.flatMap (',' :: ·)).length :=
      length_le_flatMap others fun text _ ↦ Nat.succ_pos _
    rw [intercalate_cons, List.length_append, List.length_cons]
    refine ⟨by omega, fun text htext ↦ ?_⟩
    rcases List.mem_cons.mp htext with rfl | htext
    · omega
    · have hlt := length_lt_flatMap htext
      omega

/-! ### Items among others -/

/-- The scan reads exactly this text, whatever follows it, as long as the text ends there. -/
def ReadsText {α : Type} (read : Scan α) (text : List Char) (result : α) : Prop :=
  ∀ after, Separated after → read (text ++ after) = .ok (result, after)

theorem separated_blanks (hblank : skipSpace blanks = []) (h : Separated after) :
    Separated (blanks ++ after) := by
  cases blanks with
  | nil => exact h
  | cons c blanks =>
    have hc := skipSpace_eq_nil_iff.mp hblank c List.mem_cons_self
    simp only [isSpace, Bool.or_eq_true, beq_iff_eq] at hc
    refine separated_cons ?_ _
    simp only [List.mem_cons, List.not_mem_nil, or_false]
    tauto

/-- After an entry there are other entries, or blanks and the closing bracket. -/
theorem separated_flatMap {ι : Type} (text : ι → List Char) (entries : List ι)
    (hafter : skipSpace after = []) {bracket : Char} (hbracket : bracket ∈ [']', '\x7d'])
    (rest : List Char) :
    Separated (entries.flatMap (fun entry ↦ ',' :: text entry) ++ (after ++ bracket :: rest)) := by
  cases entries with
  | nil =>
    rw [List.flatMap_nil, List.nil_append]
    refine separated_blanks hafter (separated_cons ?_ rest)
    fin_cases hbracket <;> decide
  | cons entry entries => exact separated_cons (by decide) _

section Items

variable {ι α : Type} {read : Scan α}

/-- The text is that of one item: what the scan reads, with blanks around it. -/
def IsItem (read : Scan α) (text : List Char) (result : α) : Prop :=
  ∃ lead body trail, text = lead ++ (body ++ trail) ∧ skipSpace lead = [] ∧ skipSpace trail = [] ∧
    StartsValue body ∧ ReadsText read body result

variable (text : ι → List Char) (result : ι → α)

/-- The items after the first one are read. -/
theorem items_flatMap (entries : List ι)
    (hread : ∀ entry ∈ entries, IsItem read (text entry) (result entry)) {limit : ℕ}
    (hlimit : entries.length < limit) (hblank : skipSpace blanks = [])
    (hafter : skipSpace after = []) (rest : List Char) :
    items read false limit
        (blanks ++ (entries.flatMap (fun entry ↦ ',' :: text entry) ++ (after ++ ']' :: rest))) =
      .ok (entries.map result, rest) := by
  induction entries generalizing limit blanks with
  | nil =>
    obtain ⟨smaller, rfl⟩ : ∃ smaller, limit = smaller + 1 := ⟨limit - 1, by omega⟩
    have hblanks : skipSpace (blanks ++ after) = [] := by
      rw [skipSpace_append_of_nil hblank, hafter]
    refine bind_eq_ok.mpr ⟨_, nextItem_eq_close_iff.mpr ⟨blanks ++ after, hblanks, ?_⟩, rfl⟩
    rw [List.flatMap_nil, List.nil_append, List.append_assoc]
  | cons entry entries ih =>
    obtain ⟨smaller, rfl⟩ : ∃ smaller, limit = smaller + 1 := ⟨limit - 1, by omega⟩
    obtain ⟨lead, body, trail, htext, hlead, htrail, hstarts, hbody⟩ :=
      hread entry List.mem_cons_self
    have hmore := ih (fun other hother ↦ hread other (List.mem_cons_of_mem _ hother))
      (Nat.lt_of_succ_lt_succ hlimit) htrail
    simp only [List.flatMap_cons, htext, List.cons_append, List.append_assoc]
    refine bind_eq_ok.mpr ⟨_, nextItem_comma hblank hlead (hstarts.append _), ?_⟩
    refine bind_eq_ok.mpr ⟨_, hbody _ (separated_blanks htrail ?_), ?_⟩
    · exact separated_flatMap text entries hafter (by decide) rest
    · exact bind_eq_ok.mpr ⟨_, hmore, rfl⟩

/-- A list is read from the texts of its items. -/
theorem items_intercalate (entries : List ι)
    (hread : ∀ entry ∈ entries, IsItem read (text entry) (result entry)) {limit : ℕ}
    (hlimit : entries.length < limit) (hafter : skipSpace after = []) (rest : List Char) :
    items read true limit (List.intercalate [','] (entries.map text) ++ (after ++ ']' :: rest)) =
      .ok (entries.map result, rest) := by
  obtain ⟨smaller, rfl⟩ : ∃ smaller, limit = smaller + 1 := ⟨limit - 1, by omega⟩
  cases entries with
  | nil => exact bind_eq_ok.mpr ⟨_, nextItem_eq_close_iff.mpr ⟨after, hafter, rfl⟩, rfl⟩
  | cons entry entries =>
    obtain ⟨lead, body, trail, htext, hlead, htrail, hstarts, hbody⟩ :=
      hread entry List.mem_cons_self
    have hmore := items_flatMap text result entries
      (fun other hother ↦ hread other (List.mem_cons_of_mem _ hother))
      (Nat.lt_of_succ_lt_succ hlimit) htrail hafter rest
    simp only [List.map_cons, intercalate_cons, List.flatMap_map, htext, List.append_assoc]
    refine bind_eq_ok.mpr ⟨_, nextItem_first hlead (hstarts.append _), ?_⟩
    refine bind_eq_ok.mpr ⟨_, hbody _ (separated_blanks htrail ?_), ?_⟩
    · exact separated_flatMap text entries hafter (by decide) rest
    · exact bind_eq_ok.mpr ⟨_, hmore, rfl⟩

end Items

/-! ### Members among others -/

section Members

variable {ι α : Type} {read : Scan α} {bound limit : ℕ}

/-- The text is that of one member: its name, a colon, and what the scan reads. -/
def IsMember (bound : ℕ) (read : Scan α) (text : List Char) (name : String) (result : α) : Prop :=
  ∃ body, (∀ after, StartsString bound (text ++ after) name (':' :: (body ++ after))) ∧
    ReadsText read body result

/-- A member is read after the step that leads to its name. -/
theorem members_entry {first : Bool} {text tail afterColon after rest : List Char} {s : String}
    {value : α} {more : List (String × α)} (hstep : nextMember first text = .ok (.entry tail))
    (hname : stringTail bound tail = .ok (s, ':' :: afterColon))
    (hvalue : read afterColon = .ok (value, after))
    (hmore : members bound read false limit after = .ok (more, rest)) :
    members bound read first (limit + 1) text = .ok ((s, value) :: more, rest) := by
  have hblank : skipSpace [] = [] := rfl
  have hcolon : colon (':' :: afterColon) = .ok afterColon := colon_of_blank hblank
  refine bind_eq_ok.mpr ⟨_, hstep, bind_eq_ok.mpr ⟨_, hname, bind_eq_ok.mpr ⟨_, hcolon, ?_⟩⟩⟩
  exact bind_eq_ok.mpr ⟨_, hvalue, bind_eq_ok.mpr ⟨_, hmore, rfl⟩⟩

variable (text : ι → List Char) (name : ι → String) (result : ι → α)

/-- The members after the first one are read. -/
theorem members_flatMap (entries : List ι)
    (hread : ∀ entry ∈ entries, IsMember bound read (text entry) (name entry) (result entry))
    (hlimit : entries.length < limit) (hafter : skipSpace after = []) (rest : List Char) :
    members bound read false limit
        (entries.flatMap (fun entry ↦ ',' :: text entry) ++ (after ++ '\x7d' :: rest)) =
      .ok (entries.map fun entry ↦ (name entry, result entry), rest) := by
  induction entries generalizing limit with
  | nil =>
    obtain ⟨smaller, rfl⟩ : ∃ smaller, limit = smaller + 1 := ⟨limit - 1, by omega⟩
    exact bind_eq_ok.mpr ⟨_, nextMember_close false hafter, rfl⟩
  | cons entry entries ih =>
    obtain ⟨smaller, rfl⟩ : ∃ smaller, limit = smaller + 1 := ⟨limit - 1, by omega⟩
    obtain ⟨body, hname, hbody⟩ := hread entry List.mem_cons_self
    have hmore := ih (fun other hother ↦ hread other (List.mem_cons_of_mem _ hother))
      (Nat.lt_of_succ_lt_succ hlimit)
    have hblank : skipSpace [] = [] := rfl
    obtain ⟨tail, hstep, hstring⟩ := nextMember_comma hblank (hname _)
    have hseparated : Separated
        (entries.flatMap (fun entry ↦ ',' :: text entry) ++ (after ++ '\x7d' :: rest)) :=
      separated_flatMap text entries hafter (by decide) rest
    have hvalue := hbody _ hseparated
    rw [List.flatMap_cons, List.cons_append, List.cons_append, List.append_assoc]
    exact members_entry hstep hstring hvalue hmore

/-- An object is read from the texts of its members. -/
theorem members_intercalate (entries : List ι)
    (hread : ∀ entry ∈ entries, IsMember bound read (text entry) (name entry) (result entry))
    (hlimit : entries.length < limit) (hafter : skipSpace after = []) (rest : List Char) :
    members bound read true limit
        (List.intercalate [','] (entries.map text) ++ (after ++ '\x7d' :: rest)) =
      .ok (entries.map fun entry ↦ (name entry, result entry), rest) := by
  obtain ⟨smaller, rfl⟩ : ∃ smaller, limit = smaller + 1 := ⟨limit - 1, by omega⟩
  cases entries with
  | nil => exact bind_eq_ok.mpr ⟨_, nextMember_close true hafter, rfl⟩
  | cons entry entries =>
    obtain ⟨body, hname, hbody⟩ := hread entry List.mem_cons_self
    have hmore := members_flatMap text name result entries
      (fun other hother ↦ hread other (List.mem_cons_of_mem _ hother))
      (Nat.lt_of_succ_lt_succ hlimit) hafter rest
    obtain ⟨tail, hstep, hstring⟩ := nextMember_first (hname _)
    have hseparated : Separated
        (entries.flatMap (fun entry ↦ ',' :: text entry) ++ (after ++ '\x7d' :: rest)) :=
      separated_flatMap text entries hafter (by decide) rest
    have hvalue := hbody _ hseparated
    rw [List.map_cons, intercalate_cons, List.flatMap_map, List.append_assoc]
    exact members_entry hstep hstring hvalue hmore

end Members

end Segmentation.Json
