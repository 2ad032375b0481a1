/-!
Named members, kept in increasing order of their names. A later member replaces an earlier one of
the same name, so a list built by insertion has one entry for each name (`ordered_insert`).
-/

set_option autoImplicit false

namespace Segmentation.Members

variable {α : Type}

/-- The member with a name. -/
def get? (name : String) : List (String × α) → Option α
  | [] => none
  | (key, value) :: rest => if name = key then some value else get? name rest

/-- The members with one of them set. -/
def insert (name : String) (value : α) : List (String × α) → List (String × α)
  | [] => [(name, value)]
  | (key, old) :: rest =>
    if name < key then (name, value) :: (key, old) :: rest
    else if name = key then (name, value) :: rest
    else (key, old) :: insert name value rest

/-- The value that the members had under a name, and the members with a new one set there. -/
def exchange (name : String) (value : α) :
    List (String × α) → Option α × List (String × α)
  | [] => (none, [(name, value)])
  | (key, old) :: rest =>
    if name < key then (none, (name, value) :: (key, old) :: rest)
    else if name = key then (some old, (name, value) :: rest)
    else
      let (previous, changed) := exchange name value rest
      (previous, (key, old) :: changed)

/-- The members set one after the other, so that the last of each name remains. -/
def ofList (entries : List (String × α)) : List (String × α) :=
  entries.foldl (fun members entry ↦ insert entry.1 entry.2 members) []

/-- Names increase along the list. -/
def Ordered (members : List (String × α)) : Prop :=
  members.Pairwise fun first second ↦ first.1 < second.1

theorem ordered_nil : Ordered ([] : List (String × α)) := List.Pairwise.nil

theorem get?_insert_self (name : String) (value : α) (members : List (String × α)) :
    get? name (insert name value members) = some value := by
  induction members with
  | nil => simp [insert, get?]
  | cons entry rest ih =>
    obtain ⟨key, old⟩ := entry
    by_cases hlt : name < key
    · simp [insert, get?, hlt]
    · by_cases heq : name = key
      · simp [insert, get?, heq]
      · simp [insert, get?, hlt, heq, ih]

theorem get?_insert_of_ne {name other : String} (h : other ≠ name) (value : α)
    (members : List (String × α)) :
    get? other (insert name value members) = get? other members := by
  induction members with
  | nil => simp [insert, get?, h]
  | cons entry rest ih =>
    obtain ⟨key, old⟩ := entry
    by_cases hlt : name < key
    · simp [insert, get?, hlt, h]
    · by_cases heq : name = key
      · subst heq
        simp [insert, get?, h]
      · simp [insert, get?, hlt, heq, ih]

theorem mem_of_get? {name : String} {value : α} {members : List (String × α)}
    (h : get? name members = some value) : (name, value) ∈ members := by
  induction members with
  | nil => simp [get?] at h
  | cons entry rest ih =>
    obtain ⟨key, old⟩ := entry
    rw [get?] at h
    split at h
    · rename_i heq
      rw [heq, Option.some.inj h]
      exact List.mem_cons_self
    · exact List.mem_cons_of_mem _ (ih h)

theorem get?_eq_none_iff {name : String} {members : List (String × α)} :
    get? name members = none ↔ ∀ entry ∈ members, entry.1 ≠ name := by
  induction members with
  | nil => simp [get?]
  | cons entry rest ih =>
    obtain ⟨key, old⟩ := entry
    rw [get?]
    split
    · rename_i heq
      simp [heq]
    · rename_i hne
      simp [ih, Ne.symm hne]

theorem mem_insert {name : String} {value : α} {members : List (String × α)} {entry : String × α}
    (h : entry ∈ insert name value members) : entry = (name, value) ∨ entry ∈ members := by
  induction members with
  | nil => exact Or.inl (by simpa [insert] using h)
  | cons head rest ih =>
    obtain ⟨key, old⟩ := head
    unfold insert at h
    split at h
    · rcases List.mem_cons.mp h with rfl | h
      · exact Or.inl rfl
      · exact Or.inr h
    · split at h
      · rcases List.mem_cons.mp h with rfl | h
        · exact Or.inl rfl
        · exact Or.inr (List.mem_cons_of_mem _ h)
      · rcases List.mem_cons.mp h with rfl | h
        · exact Or.inr List.mem_cons_self
        · exact (ih h).imp_right (List.mem_cons_of_mem _)

/-- Insertion keeps the order. -/
theorem ordered_insert (name : String) (value : α) {members : List (String × α)}
    (h : Ordered members) : Ordered (insert name value members) := by
  induction members with
  | nil => exact List.pairwise_singleton _ _
  | cons head rest ih =>
    obtain ⟨key, old⟩ := head
    obtain ⟨hhead, hrest⟩ := List.pairwise_cons.mp h
    unfold insert
    split
    · rename_i hlt
      refine List.pairwise_cons.mpr ⟨fun entry hentry ↦ ?_, h⟩
      rcases List.mem_cons.mp hentry with rfl | hentry
      · exact hlt
      · exact String.lt_trans hlt (hhead entry hentry)
    · split
      · rename_i heq
        subst heq
        exact List.pairwise_cons.mpr ⟨hhead, hrest⟩
      · rename_i hlt heq
        refine List.pairwise_cons.mpr ⟨fun entry hentry ↦ ?_, ih hrest⟩
        rcases mem_insert hentry with rfl | hentry
        · exact Std.lt_of_le_of_ne (Std.not_lt.mp hlt) (Ne.symm heq)
        · exact hhead entry hentry

/-- In an ordered list, the entries of a name are found by it. -/
theorem get?_eq_some_iff {name : String} {value : α} {members : List (String × α)}
    (h : Ordered members) : get? name members = some value ↔ (name, value) ∈ members := by
  refine ⟨mem_of_get?, fun hmem ↦ ?_⟩
  induction members with
  | nil => exact absurd hmem List.not_mem_nil
  | cons entry rest ih =>
    obtain ⟨hhead, hrest⟩ := List.pairwise_cons.mp h
    rcases List.mem_cons.mp hmem with rfl | htail
    · simp [get?]
    · obtain ⟨key, old⟩ := entry
      have hlt : key < name := hhead (name, value) htail
      have hne : name ≠ key := fun heq ↦ String.lt_irrefl key (heq ▸ hlt)
      rw [get?, if_neg hne]
      exact ih hrest htail

/-- A name below the first one is not among the members. -/
theorem get?_of_lt_head {name key : String} {old : α} {rest : List (String × α)}
    (h : Ordered ((key, old) :: rest)) (hlt : name < key) :
    get? name ((key, old) :: rest) = none := by
  have hhead := (List.pairwise_cons.mp h).1
  refine get?_eq_none_iff.mpr fun entry hentry ↦ ?_
  rcases List.mem_cons.mp hentry with rfl | hentry
  · exact fun heq ↦ Std.ne_of_lt hlt heq.symm
  · exact fun heq ↦ Std.ne_of_lt (String.lt_trans hlt (hhead entry hentry)) heq.symm

/-- An exchange gives what a name stood for, and sets its value. -/
theorem exchange_eq (name : String) (value : α) {members : List (String × α)}
    (h : Ordered members) :
    exchange name value members = (get? name members, insert name value members) := by
  induction members with
  | nil => rfl
  | cons head rest ih =>
    obtain ⟨key, old⟩ := head
    have hrest := (List.pairwise_cons.mp h).2
    by_cases hlt : name < key
    · rw [exchange, insert, if_pos hlt, if_pos hlt, get?_of_lt_head h hlt]
    · by_cases heq : name = key
      · rw [exchange, insert, get?, if_neg hlt, if_neg hlt, if_pos heq, if_pos heq, if_pos heq]
      · rw [exchange, insert, get?, if_neg hlt, if_neg hlt, if_neg heq, if_neg heq, if_neg heq,
          ih hrest]

/-- An exchange keeps the order. -/
theorem ordered_exchange (name : String) (value : α) {members : List (String × α)}
    (h : Ordered members) : Ordered (exchange name value members).2 := by
  rw [exchange_eq name value h]
  exact ordered_insert name value h

/-- Insertion adds an entry exactly when the name is new. -/
theorem length_insert (name : String) (value : α) {members : List (String × α)}
    (h : Ordered members) :
    (insert name value members).length =
      members.length + if (get? name members).isNone then 1 else 0 := by
  induction members with
  | nil => rfl
  | cons head rest ih =>
    obtain ⟨key, old⟩ := head
    have hrest := (List.pairwise_cons.mp h).2
    unfold insert
    split
    · rename_i hlt
      rw [get?_of_lt_head h hlt]
      rfl
    · split
      · rename_i heq
        simp [get?, heq]
      · rename_i hne
        rw [List.length_cons, ih hrest, get?, if_neg hne, List.length_cons]
        omega

theorem ordered_foldl_insert (entries : List (String × α)) {members : List (String × α)}
    (h : Ordered members) :
    Ordered (entries.foldl (fun members entry ↦ insert entry.1 entry.2 members) members) := by
  induction entries generalizing members with
  | nil => exact h
  | cons entry rest ih => exact ih (ordered_insert entry.1 entry.2 h)

theorem ordered_ofList (entries : List (String × α)) : Ordered (ofList entries) :=
  ordered_foldl_insert entries ordered_nil

end Segmentation.Members
