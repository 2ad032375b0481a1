/-!
A text cut into pieces: into lines, and at a separator. A line ends at a line feed or at a carriage
return followed by one; a lone carriage return belongs to its line. An end of line at the very end
starts no further line. Cutting at a separator always leaves one piece more than there are
separators.
-/

set_option autoImplicit false

namespace Segmentation.Text

/-- A character put in front of the first of some pieces. -/
def consFirst (c : Char) : List (List Char) → List (List Char)
  | [] => [[c]]
  | piece :: pieces => (c :: piece) :: pieces

/-- The lines of a text, without their ends. -/
def lines : List Char → List (List Char)
  | [] => []
  | '\n' :: rest => [] :: lines rest
  | '\r' :: '\n' :: rest => [] :: lines rest
  | c :: rest => consFirst c (lines rest)

/-- The pieces of a text between the occurrences of a separator. -/
def splitAt (separator : Char) : List Char → List (List Char)
  | [] => [[]]
  | c :: rest =>
    if c = separator then [] :: splitAt separator rest
    else consFirst c (splitAt separator rest)

theorem consFirst_ne_nil (c : Char) (pieces : List (List Char)) : consFirst c pieces ≠ [] := by
  cases pieces <;> simp [consFirst]

theorem splitAt_ne_nil (separator : Char) (text : List Char) : splitAt separator text ≠ [] := by
  cases text with
  | nil => simp [splitAt]
  | cons c rest =>
    unfold splitAt
    split
    · simp
    · exact consFirst_ne_nil _ _

/-- A text without the separator is its only piece. -/
theorem splitAt_of_not_mem {separator : Char} {text : List Char} (h : separator ∉ text) :
    splitAt separator text = [text] := by
  induction text with
  | nil => rfl
  | cons c rest ih =>
    have hne : c ≠ separator := fun heq ↦ h (heq ▸ List.mem_cons_self)
    rw [splitAt, if_neg hne, ih fun hmem ↦ h (List.mem_cons_of_mem _ hmem)]
    rfl

/-- A piece ends at the first separator. -/
theorem splitAt_append {separator : Char} {piece : List Char} (h : separator ∉ piece)
    (rest : List Char) :
    splitAt separator (piece ++ separator :: rest) = piece :: splitAt separator rest := by
  induction piece with
  | nil => simp [splitAt]
  | cons c more ih =>
    have hne : c ≠ separator := fun heq ↦ h (heq ▸ List.mem_cons_self)
    rw [List.cons_append, splitAt, if_neg hne, ih fun hmem ↦ h (List.mem_cons_of_mem _ hmem)]
    rfl

theorem not_mem_of_mem_splitAt {separator : Char} {text piece : List Char}
    (h : piece ∈ splitAt separator text) : separator ∉ piece := by
  induction text generalizing piece with
  | nil =>
    rw [splitAt, List.mem_singleton] at h
    exact h ▸ List.not_mem_nil
  | cons c rest ih =>
    unfold splitAt at h
    split at h
    · rcases List.mem_cons.mp h with rfl | hmem
      · exact List.not_mem_nil
      · exact ih hmem
    · rename_i hne
      cases hpieces : splitAt separator rest with
      | nil => exact absurd hpieces (splitAt_ne_nil separator rest)
      | cons first more =>
        rw [hpieces, consFirst] at h
        rcases List.mem_cons.mp h with rfl | hmem
        · intro hin
          rcases List.mem_cons.mp hin with rfl | hin
          · exact hne rfl
          · exact ih (hpieces ▸ List.mem_cons_self) hin
        · exact ih (hpieces ▸ List.mem_cons_of_mem _ hmem)

/-- The pieces of a text, joined by the separator, are the text again. -/
theorem intercalate_splitAt (separator : Char) (text : List Char) :
    List.intercalate [separator] (splitAt separator text) = text := by
  induction text with
  | nil => rfl
  | cons c rest ih =>
    cases hpieces : splitAt separator rest with
    | nil => exact absurd hpieces (splitAt_ne_nil separator rest)
    | cons first more =>
      rw [hpieces] at ih
      unfold splitAt
      split
      · rename_i heq
        rw [hpieces, heq]
        simpa [List.intercalate] using ih
      · rw [hpieces, consFirst]
        cases more <;> simpa [List.intercalate] using ih

/-- A line ends at its line feed. -/
theorem lines_append {line : List Char} (hfeed : '\n' ∉ line)
    (hreturn : line.getLast? ≠ some '\r') (rest : List Char) :
    lines (line ++ '\n' :: rest) = line :: lines rest := by
  induction line with
  | nil => simp [lines]
  | cons c more ih =>
    have hc : c ≠ '\n' := fun heq ↦ hfeed (heq ▸ List.mem_cons_self)
    have htail : lines (more ++ '\n' :: rest) = more :: lines rest := by
      refine ih (fun hmem ↦ hfeed (List.mem_cons_of_mem _ hmem)) ?_
      cases more with
      | nil => simp
      | cons d others => simpa [List.getLast?_cons_cons] using hreturn
    have hpair : ¬ (c = '\r' ∧ more = []) := by
      rintro ⟨rfl, rfl⟩
      exact hreturn rfl
    rw [List.cons_append, lines, htail, consFirst]
    · exact hc
    · intro others hcr hrest
      cases more with
      | nil => exact hpair ⟨hcr, rfl⟩
      | cons d others' =>
        rw [List.cons_append, List.cons.injEq] at hrest
        exact hfeed (hrest.1 ▸ List.mem_cons_of_mem _ List.mem_cons_self)

end Segmentation.Text
