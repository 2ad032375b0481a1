import Mathlib
import Segmentation.Members

/-!
# Lists of members as a whole

An ordered list of members is the list that is built from its own entries
(`ofList_of_ordered`), in whatever order they come (`ofList_of_perm`), and building a list from
entries adds none (`mem_of_mem_ofList`); a name is found in it with the value of its last entry
(`get?_ofList`). The order depends on the names only, so it survives a change of the values
(`ordered_map`).
-/

set_option autoImplicit false

namespace Segmentation.Members

variable {α β : Type}

/-- A name past all others is set at the end. -/
theorem insert_of_forall_lt {name : String} (value : α) {members : List (String × α)}
    (h : ∀ member ∈ members, member.1 < name) :
    insert name value members = members ++ [(name, value)] := by
  induction members with
  | nil => rfl
  | cons member rest ih =>
    obtain ⟨key, old⟩ := member
    have hlt : key < name := h (key, old) List.mem_cons_self
    have hnot : ¬name < key := String.lt_asymm hlt
    have hne : name ≠ key := fun heq ↦ String.lt_irrefl key (heq ▸ hlt)
    rw [insert, if_neg hnot, if_neg hne, ih fun member hmember ↦
      h member (List.mem_cons_of_mem _ hmember), List.cons_append]

/-- Setting the entries of an ordered list one after the other appends them. -/
theorem foldl_insert_of_ordered {members entries : List (String × α)}
    (h : Ordered (members ++ entries)) :
    entries.foldl (fun members entry ↦ insert entry.1 entry.2 members) members =
      members ++ entries := by
  induction entries generalizing members with
  | nil => rw [List.foldl_nil, List.append_nil]
  | cons entry rest ih =>
    obtain ⟨name, value⟩ := entry
    have hbelow : ∀ member ∈ members, member.1 < name := fun member hmember ↦
      (List.pairwise_append.mp h).2.2 member hmember (name, value) List.mem_cons_self
    have hsplit : members ++ (name, value) :: rest = members ++ [(name, value)] ++ rest := by simp
    rw [List.foldl_cons, insert_of_forall_lt value hbelow, ih (hsplit ▸ h), ← hsplit]

/-- An ordered list is built from its own entries. -/
theorem ofList_of_ordered {entries : List (String × α)} (h : Ordered entries) :
    ofList entries = entries := by
  rw [ofList, foldl_insert_of_ordered (by rwa [List.nil_append]), List.nil_append]

theorem mem_of_mem_foldl {entries members : List (String × α)} {member : String × α}
    (h : member ∈ entries.foldl (fun members entry ↦ insert entry.1 entry.2 members) members) :
    member ∈ members ∨ member ∈ entries := by
  induction entries generalizing members with
  | nil => exact Or.inl h
  | cons entry rest ih =>
    rcases ih h with hmember | hrest
    · rcases mem_insert hmember with rfl | hmember
      · exact Or.inr List.mem_cons_self
      · exact Or.inl hmember
    · exact Or.inr (List.mem_cons_of_mem _ hrest)

/-- What is built from entries has no others. -/
theorem mem_of_mem_ofList {entries : List (String × α)} {member : String × α}
    (h : member ∈ ofList entries) : member ∈ entries :=
  (mem_of_mem_foldl h).resolve_left List.not_mem_nil

/-- A name that is new is set by one more entry. -/
theorem insert_perm {name : String} (value : α) {members : List (String × α)}
    (h : name ∉ members.map Prod.fst) :
    (insert name value members).Perm ((name, value) :: members) := by
  induction members with
  | nil => exact .refl _
  | cons member rest ih =>
    obtain ⟨key, old⟩ := member
    rw [List.map_cons, List.mem_cons, not_or] at h
    unfold insert
    split
    · exact .refl _
    · rw [if_neg h.1]
      exact ((ih h.2).cons _).trans (.swap _ _ _)

theorem ofList_append_singleton (entries : List (String × α)) (entry : String × α) :
    ofList (entries ++ [entry]) = insert entry.1 entry.2 (ofList entries) := by
  rw [ofList, List.foldl_append]
  rfl

/-- Entries with names of their own are only rearranged. -/
theorem ofList_perm {entries : List (String × α)} (h : (entries.map Prod.fst).Nodup) :
    (ofList entries).Perm entries := by
  induction entries using List.reverseRecOn with
  | nil => exact .refl _
  | append_singleton entries entry ih =>
    rw [List.map_append, List.nodup_append] at h
    obtain ⟨hnames, -, hnew⟩ := h
    have hfresh : entry.1 ∉ (ofList entries).map Prod.fst := by
      rw [((ih hnames).map Prod.fst).mem_iff]
      exact fun hmem ↦ hnew _ hmem _ (List.mem_singleton_self _) rfl
    rw [ofList_append_singleton]
    exact (insert_perm entry.2 hfresh).trans
      (((ih hnames).cons entry).trans (List.perm_append_singleton entry entries).symm)

/-- An ordered list is built from its own entries in whatever order they come. -/
theorem ofList_of_perm {entries members : List (String × α)} (h : entries.Perm members)
    (hordered : Ordered members) : ofList entries = members := by
  have hnames : (members.map Prod.fst).Nodup :=
    List.pairwise_map.mpr (hordered.imp Std.ne_of_lt)
  have hperm := (ofList_perm ((h.map Prod.fst).nodup_iff.mpr hnames)).trans h
  refine hperm.eq_of_pairwise (fun first second _ _ hlt hgt ↦ ?_) (ordered_ofList entries) hordered
  exact absurd hgt (String.lt_asymm hlt)

/-- Values can be changed without a change of the order. -/
theorem ordered_map (f : String × α → β) {members : List (String × α)} (h : Ordered members) :
    Ordered (members.map fun member ↦ (member.1, f member)) :=
  List.pairwise_map.mpr h

theorem get?_map (f : α → β) (name : String) (members : List (String × α)) :
    get? name (members.map fun member ↦ (member.1, f member.2)) =
      (get? name members).map f := by
  induction members with
  | nil => rfl
  | cons member rest ih =>
    rw [List.map_cons, get?, get?, ih]
    split <;> rfl

/-- Of several entries of a name the last one is found. -/
theorem get?_ofList (name : String) (entries : List (String × α)) :
    get? name (ofList entries) = get? name entries.reverse := by
  induction entries using List.reverseRecOn with
  | nil => rfl
  | append_singleton entries entry ih =>
    rw [ofList_append_singleton, List.reverse_append, List.reverse_singleton,
      List.singleton_append, get?]
    by_cases hname : name = entry.1
    · rw [if_pos hname, hname, get?_insert_self]
    · rw [if_neg hname, get?_insert_of_ne hname, ih]

end Segmentation.Members
