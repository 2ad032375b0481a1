import Mathlib
import Segmentation.EventFile
import Segmentation.Proofs.Event.Body

/-!
# Files with an event on a line

`OnLines` says that a file holds some texts, one on a line each, between blank lines. If the texts
are those of events, the lines give these events (`eventsOfLines_of_onLines`). A carriage return
that ends a text on a line without one of its own is taken for the end of the line; the text loses a
blank by it and is read all the same.
-/

set_option autoImplicit false

namespace Segmentation.Text

/-! ### Lines -/

/-- What a line ends with. -/
inductive LineEnd : List Char → Prop
  | feed : LineEnd ['\n']
  | returnFeed : LineEnd ['\r', '\n']

variable {line rest ending : List Char}

/-- A character that ends no line belongs to its line. -/
theorem lines_cons {c : Char} (hc : c ≠ '\n') (hrest : rest.head? ≠ some '\n') :
    lines (c :: rest) = consFirst c (lines rest) := by
  rw [lines]
  · exact hc
  · rintro others - rfl
    exact hrest rfl

theorem head?_append_ne_feed (hfeed : '\n' ∉ line) (hrest : rest.head? ≠ some '\n') :
    (line ++ rest).head? ≠ some '\n' := by
  cases line with
  | nil => exact hrest
  | cons c line => exact fun hc ↦ hfeed (Option.some.inj hc ▸ List.mem_cons_self)

/-- A line may end at a carriage return followed by a line feed. -/
theorem lines_append_return (hfeed : '\n' ∉ line) (rest : List Char) :
    lines (line ++ '\r' :: '\n' :: rest) = line :: lines rest := by
  induction line with
  | nil => simp [lines]
  | cons c more ih =>
    obtain ⟨hc, hmore⟩ := not_or.mp (mt List.mem_cons.mpr hfeed)
    have hhead := @head?_append_ne_feed more ('\r' :: '\n' :: rest) hmore (by simp)
    rw [List.cons_append, lines_cons (Ne.symm hc) hhead, ih hmore, consFirst]

/-- The last line needs no end. -/
theorem lines_of_not_mem (hfeed : '\n' ∉ line) (hne : line ≠ []) : lines line = [line] := by
  induction line with
  | nil => exact absurd rfl hne
  | cons c more ih =>
    obtain ⟨hc, hmore⟩ := not_or.mp (mt List.mem_cons.mpr hfeed)
    have hhead := @head?_append_ne_feed more [] hmore (by simp)
    rw [List.append_nil] at hhead
    rw [lines_cons (Ne.symm hc) hhead]
    cases more with
    | nil => rfl
    | cons d more => rw [ih hmore (List.cons_ne_nil d more), consFirst]

/-- A line shows up without its end; a carriage return of its own may be lost with the end. -/
theorem exists_lines_append (hfeed : '\n' ∉ line) (hending : LineEnd ending) (rest : List Char) :
    ∃ shown, lines (line ++ (ending ++ rest)) = shown :: lines rest ∧
      (line = shown ∨ line = shown ++ ['\r']) := by
  cases hending with
  | returnFeed => exact ⟨line, lines_append_return hfeed rest, Or.inl rfl⟩
  | feed =>
    by_cases hreturn : line.getLast? = some '\r'
    · obtain ⟨front, rfl⟩ := List.getLast?_eq_some_iff.mp hreturn
      have hfront : '\n' ∉ front := fun hmem ↦ hfeed (List.mem_append_left _ hmem)
      refine ⟨front, ?_, Or.inr rfl⟩
      rw [List.append_assoc]
      exact lines_append_return hfront rest
    · exact ⟨line, lines_append hfeed hreturn rest, Or.inl rfl⟩

end Segmentation.Text

namespace Segmentation.EventFile

open Text

/-! ### Texts on lines -/

/-- The file holds the texts in order, one on a line each, and all other lines are blank. The last
line may lack its end. -/
inductive OnLines : List String → List Char → Prop
  | lastBlank {line : List Char} (hblank : isBlankText line = true) (hline : '\n' ∉ line) :
    OnLines [] line
  | last (text : String) : OnLines [text] text.toList
  | blank {texts : List String} {line ending file : List Char} (hblank : isBlankText line = true)
    (hline : '\n' ∉ line) (hending : LineEnd ending) (h : OnLines texts file) :
    OnLines texts (line ++ (ending ++ file))
  | text {texts : List String} {ending file : List Char} (text : String) (hending : LineEnd ending)
    (h : OnLines texts file) : OnLines (text :: texts) (text.toList ++ (ending ++ file))

variable {texts : List String} {text : String} {file : List Char}

theorem isBlankText_lineEnd {ending : List Char} (h : LineEnd ending) :
    isBlankText ending = true := by
  cases h <;> rfl

theorem isBlankText_append {line rest : List Char} : isBlankText (line ++ rest) = true ↔
    isBlankText line = true ∧ isBlankText rest = true := by
  rw [isBlankText, List.all_append, Bool.and_eq_true]
  rfl

/-- A file of blank lines is blank. -/
theorem isBlankText_of_onLines (h : OnLines [] file) : isBlankText file = true := by
  generalize htexts : [] = texts at h
  induction h with
  | lastBlank hblank hline => exact hblank
  | last text => exact absurd htexts (by simp)
  | blank hblank hline hending h ih =>
    exact isBlankText_append.mpr
      ⟨hblank, isBlankText_append.mpr ⟨isBlankText_lineEnd hending, ih htexts⟩⟩
  | text text hending h ih => exact absurd htexts (by simp)

/-- The characters of the texts are characters of the file. -/
theorem OnLines.mem (h : OnLines texts file) (htext : text ∈ texts) :
    ∀ c ∈ text.toList, c ∈ file := by
  intro c hc
  induction h with
  | lastBlank hblank hline => exact absurd htext List.not_mem_nil
  | last only => exact List.mem_singleton.mp htext ▸ hc
  | blank hblank hline hending h ih =>
    exact List.mem_append_right _ (List.mem_append_right _ (ih htext))
  | text first hending h ih =>
    rcases List.mem_cons.mp htext with rfl | htext
    · exact List.mem_append_left _ hc
    · exact List.mem_append_right _ (List.mem_append_right _ (ih htext))

/-- What follows the first text of a file holds the other texts. -/
theorem OnLines.exists_first (h : OnLines (text :: texts) file) : ∃ before after,
    file = before ++ (text.toList ++ after) ∧ isBlankText before = true ∧
      Json.Separated after ∧ ∀ other ∈ texts, ∀ c ∈ other.toList, c ∈ after := by
  generalize htexts : text :: texts = all at h
  induction h with
  | lastBlank hblank hline => exact absurd htexts (by simp)
  | last only =>
    obtain ⟨rfl, rfl⟩ := List.cons.inj htexts
    exact ⟨[], [], by simp, rfl, Json.separated_nil, fun other hother ↦
      absurd hother List.not_mem_nil⟩
  | @blank _ line ending file hblank hline hending h ih =>
    obtain ⟨before, after, rfl, hbefore, hafter⟩ := ih htexts
    refine ⟨line ++ (ending ++ before), after, by simp, ?_, hafter⟩
    exact isBlankText_append.mpr
      ⟨hblank, isBlankText_append.mpr ⟨isBlankText_lineEnd hending, hbefore⟩⟩
  | @text _ ending file first hending h ih =>
    obtain ⟨rfl, rfl⟩ := List.cons.inj htexts
    refine ⟨[], ending ++ file, rfl, rfl, ?_, fun other hother c hc ↦ ?_⟩
    · cases hending <;> exact Json.separated_cons (by decide) _
    · exact List.mem_append_right _ (h.mem hother c hc)

/-! ### Events on lines -/

open Json (skipSpace)

/-- The text of an event that may have lost a carriage return at its end is still read. -/
theorem read_shown {event : Event} (h : Event.read text = .ok event) {shown : List Char}
    (hshown : text.toList = shown ∨ text.toList = shown ++ ['\r']) :
    Event.read (String.ofList shown) = .ok event := by
  rcases hshown with hshown | hshown
  · rwa [← hshown, String.ofList_toList]
  obtain ⟨lead, body, trail, levels, htext, hlead, htrail, hlevels, hbody⟩ := Event.exists_body h
  rw [htext, ← List.append_assoc] at hshown
  have hreturn : Json.isSpace '\r' = true := rfl
  rcases List.eq_nil_or_concat' trail with rfl | ⟨front, c, rfl⟩
  · obtain ⟨middle, d, rfl, hd⟩ := hbody.solid
    rw [List.append_nil, ← List.append_assoc] at hshown
    obtain ⟨-, hlast⟩ := List.append_inj' hshown rfl
    rw [(List.cons.inj hlast).1, hreturn] at hd
    exact absurd hd (by simp)
  · rw [← List.append_assoc] at hshown
    obtain ⟨rfl, -⟩ := List.append_inj' hshown rfl
    have hfront : skipSpace front = [] := Json.skipSpace_eq_nil_iff.mpr fun d hd ↦
      Json.skipSpace_eq_nil_iff.mp htrail d (List.mem_append_left _ hd)
    rw [List.append_assoc]
    exact Event.read_of_body hbody hlevels hlead hfront

/-- The text of an event is not blank. -/
theorem not_isBlankText_of_read {event : Event} (h : Event.read text = .ok event) :
    isBlankText text.toList = false := by
  obtain ⟨lead, body, trail, levels, htext, -, -, -, hbody⟩ := Event.exists_body h
  obtain ⟨tail, rfl⟩ := hbody.brace
  have hbrace : isBlank '\x7b' = false := rfl
  simp [isBlankText, htext, hbrace]

theorem eventsOfLines_blank {line : List Char} (h : isBlankText line = true) (start : ℕ)
    (rest : List (List Char)) :
    eventsOfLines start (line :: rest) = eventsOfLines (start + 1) rest := by
  rw [eventsOfLines, if_pos h]

theorem eventsOfLines_event {line : List Char} {event : Event} {events : List Event} {start : ℕ}
    {rest : List (List Char)} (h : Event.read (String.ofList line) = .ok event)
    (hrest : eventsOfLines (start + 1) rest = .ok events) :
    eventsOfLines start (line :: rest) = .ok (event :: events) := by
  have hblank := not_isBlankText_of_read h
  rw [String.toList_ofList] at hblank
  rw [eventsOfLines, hblank, if_neg Bool.false_ne_true, h]
  exact Json.bind_eq_ok.mpr ⟨event, rfl, Json.bind_eq_ok.mpr ⟨events, hrest, rfl⟩⟩

/-- The lines of a file give the events of the texts that it holds. -/
theorem eventsOfLines_of_onLines {entries : List (String × Event)}
    (hline : ∀ entry ∈ entries, '\n' ∉ entry.1.toList)
    (hread : ∀ entry ∈ entries, Event.read entry.1 = .ok entry.2)
    (h : OnLines (entries.map Prod.fst) file) (start : ℕ) :
    eventsOfLines start (lines file) = .ok (entries.map Prod.snd) := by
  generalize htexts : entries.map Prod.fst = texts at h
  induction h generalizing entries start with
  | @lastBlank line hblank hfeed =>
    obtain rfl := List.map_eq_nil_iff.mp htexts
    by_cases hne : line = []
    · rw [hne]
      rfl
    · rw [lines_of_not_mem hfeed hne, eventsOfLines_blank hblank]
      rfl
  | last text =>
    obtain ⟨entry, others, rfl, rfl, hothers⟩ := List.map_eq_cons_iff.mp htexts
    obtain rfl := List.map_eq_nil_iff.mp hothers
    have hentry := hread entry List.mem_cons_self
    have hne : entry.1.toList ≠ [] := by
      intro hnil
      have hblank := not_isBlankText_of_read hentry
      rw [hnil] at hblank
      exact absurd hblank (by decide)
    rw [lines_of_not_mem (hline entry List.mem_cons_self) hne]
    refine eventsOfLines_event ?_ rfl
    rwa [String.ofList_toList]
  | @blank _ line ending file hblank hfeed hending h ih =>
    obtain ⟨shown, hlines, hshown⟩ := exists_lines_append hfeed hending file
    have hblankShown : isBlankText shown = true := by
      rcases hshown with rfl | rfl
      · exact hblank
      · exact (isBlankText_append.mp hblank).1
    rw [hlines, eventsOfLines_blank hblankShown]
    exact ih hline hread (start + 1) htexts
  | @text _ ending file text hending h ih =>
    obtain ⟨entry, others, rfl, rfl, hothers⟩ := List.map_eq_cons_iff.mp htexts
    obtain ⟨shown, hlines, hshown⟩ :=
      exists_lines_append (hline entry List.mem_cons_self) hending file
    have hmore := ih (fun other hother ↦ hline other (List.mem_cons_of_mem _ hother))
      (fun other hother ↦ hread other (List.mem_cons_of_mem _ hother)) (start + 1) hothers
    rw [hlines]
    exact eventsOfLines_event (read_shown (hread entry List.mem_cons_self) hshown) hmore

end Segmentation.EventFile
