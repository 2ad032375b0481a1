import Mathlib
import Segmentation.Configuration.Reader

/-!
# Configurations of plain lines

A configuration can be written without comments, escapes and dotted keys: headers, and keys with a
word or a list of one word. `IsBare` are the keys that need no quotes and `IsPlain` the words that
mean themselves between them. Reading goes line by line, and there is one equation for each kind of
line. `read_oneSegmentText` puts them together for a configuration that names one event file and one
segment. The equations hold of any words, so the length of the names does not matter.
-/

set_option autoImplicit false

namespace Segmentation.Toml

variable {bound limit depth : ℕ} {word text rest : List Char} {c : Char} {opened : List String}
  {entries changed : Entries} {v : Toml}

/-! ### Keys -/

/-- A word that can be a key without quotes. -/
structure IsBare (word : List Char) : Prop where
  ne_nil : word ≠ []
  isBareKey : ∀ c ∈ word, isBareKey c = true

/-- A bare word begins with no mark of the notation. -/
theorem IsBare.exists_cons (h : IsBare word) :
    ∃ first more, word = first :: more ∧ ∀ mark, Toml.isBareKey mark = false → first ≠ mark := by
  obtain ⟨first, more, rfl⟩ := List.exists_cons_of_ne_nil h.ne_nil
  refine ⟨first, more, rfl, fun mark hmark hfirst ↦ ?_⟩
  rw [← hfirst, h.isBareKey first List.mem_cons_self] at hmark
  exact Bool.noConfusion hmark

/-- A bare word in front of something else is a key by itself. -/
theorem simpleKey_bare (h : IsBare word) (htext : text.takeWhile isBareKey = []) :
    simpleKey limit (word ++ text) = some (String.ofList word, text) := by
  have htake : (word ++ text).takeWhile isBareKey = word := by
    rw [List.takeWhile_append_of_pos h.isBareKey, htext, List.append_nil]
  have hdrop : (word ++ text).dropWhile isBareKey = text := by
    have hsplit := List.takeWhile_append_dropWhile (p := isBareKey) (l := word ++ text)
    rw [htake] at hsplit
    exact List.append_cancel_left hsplit
  obtain ⟨first, more, rfl, hfirst⟩ := h.exists_cons
  unfold simpleKey
  split
  · next heq => exact absurd (List.cons.inj heq).1 (hfirst _ rfl)
  · next heq => exact absurd (List.cons.inj heq).1 (hfirst _ rfl)
  · rw [htake, hdrop]
    rfl

/-- A text that begins with a bare word begins with no blank. -/
theorem skipSpace_bare (h : IsBare word) (text : List Char) :
    skipSpace (word ++ text) = word ++ text := by
  obtain ⟨first, more, rfl, hfirst⟩ := h.exists_cons
  have hspace : isSpace first = false := by
    simp [isSpace, hfirst ' ' rfl, hfirst '\t' rfl]
  rw [List.cons_append, skipSpace, List.dropWhile_cons, hspace]
  rfl

/-- A bare word that no dot follows is a whole key. -/
theorem key_bare (h : IsBare word) (htext : text.takeWhile isBareKey = [])
    (hrest : skipSpace text = c :: rest) (hc : c ≠ '.') :
    key (limit + 1) (word ++ text) = some ([String.ofList word], c :: rest) := by
  have hparts : keyParts (limit + 1) (limit + 1) (word ++ text) =
      some ([String.ofList word], c :: rest) := by
    simp only [keyParts, skipSpace_bare h, simpleKey_bare h htext, Option.bind_eq_bind,
      Option.bind_some, hrest]
    split
    · next heq => exact absurd (List.cons.inj heq).1 hc
    · rfl
  simp [key, hparts, depthBound]

/-! ### Values -/

/-- A word that means itself between quotes. -/
structure IsPlain (word : List Char) : Prop where
  ne_nil : word ≠ []
  isInline : ∀ c ∈ word, c ≠ '"' ∧ c ≠ '\\' ∧ isInline c = true

/-- A text of plain characters is read up to the quote behind it. -/
theorem basicBody_append (h : ∀ c ∈ word, c ≠ '"' ∧ c ≠ '\\' ∧ isInline c = true)
    (hlimit : word.length < limit) (rest : List Char) :
    basicBody limit (word ++ '"' :: rest) = some (word, rest) := by
  obtain ⟨limit, rfl⟩ := Nat.exists_eq_succ_of_ne_zero (Nat.ne_of_gt (Nat.zero_lt_of_lt hlimit))
  induction word generalizing limit with
  | nil => rfl
  | cons c more ih =>
    obtain ⟨⟨hquote, hbackslash, hinline⟩, hmore⟩ := List.forall_mem_cons.mp h
    rw [List.length_cons] at hlimit
    obtain ⟨limit, rfl⟩ := Nat.exists_eq_succ_of_ne_zero (n := limit) (by omega)
    have hrest := ih hmore limit (by omega)
    rw [List.cons_append, basicBody, if_neg hquote, if_neg hbackslash, if_pos hinline]
    simp only [Option.bind_eq_bind, Option.bind_some, hrest]

/-- A plain word in quotes is a string. -/
theorem value_quoted (h : IsPlain word) (hlimit : word.length < limit) (rest : List Char) :
    value limit depth ('"' :: (word ++ '"' :: rest)) =
      some (.string (String.ofList word), rest) := by
  have hbody := basicBody_append h.isInline hlimit rest
  obtain ⟨first, more, rfl⟩ := List.exists_cons_of_ne_nil h.ne_nil
  have hfirst : first ≠ '"' := (h.isInline first List.mem_cons_self).1
  have hliteral : stringLiteral limit ('"' :: (first :: more ++ '"' :: rest)) =
      some (String.ofList (first :: more), rest) := by
    rw [List.cons_append] at hbody ⊢
    unfold stringLiteral
    split
    · next heq => exact absurd (List.cons.inj (List.cons.inj heq).2).1 hfirst
    · next heq =>
      obtain ⟨-, rfl⟩ := List.cons.inj heq
      simp only [hbody, Option.bind_eq_bind, Option.bind_some]
    all_goals simp_all
  have hscalar : scalar limit ('"' :: (first :: more ++ '"' :: rest)) =
      some (.string (String.ofList (first :: more)), rest) := by
    simp only [scalar, true_or, if_true, hliteral, Option.map_some]
  cases depth with
  | zero => exact hscalar
  | succ depth => exact hscalar

/-- A plain word in quotes and brackets is a list with one string. -/
theorem value_single (h : IsPlain word) (hlimit : word.length < limit + 1) (rest : List Char) :
    value (limit + 1) (depth + 1) ('[' :: '"' :: (word ++ '"' :: ']' :: rest)) =
      some (.array [.string (String.ofList word)], rest) := by
  have hread : value (limit + 1) depth ('"' :: (word ++ '"' :: ']' :: rest)) =
      some (.string (String.ofList word), ']' :: rest) := value_quoted h hlimit (']' :: rest)
  have hopening : skipFiller (limit + 1) ('"' :: (word ++ '"' :: ']' :: rest)) =
      some ('"' :: (word ++ '"' :: ']' :: rest)) := rfl
  have hclosing : skipFiller (limit + 1) (']' :: rest) = some (']' :: rest) := rfl
  have hitems : arrayItems (limit + 1) (value (limit + 1) depth) (limit + 1)
      ('"' :: (word ++ '"' :: ']' :: rest)) = some ([.string (String.ofList word)], rest) := by
    simp [arrayItems, hopening, hread, hclosing]
  simp [value, valueWith, hitems]

/-! ### Lines -/

/-- A word in front of a text is cut off. -/
theorem cut?_append (word rest : List Char) : cut? word (word ++ rest) = some rest := by
  induction word with
  | nil => rfl
  | cons c more ih => rw [List.cons_append, cut?, if_pos rfl, ih]

/-- A bare word in brackets, one or more, is the key of a header. -/
theorem header_bare (h : IsBare word) (more rest : List Char) :
    header (bound + 1) (']' :: more) (word ++ ']' :: (more ++ '\n' :: rest)) =
      some ([String.ofList word], rest) := by
  have hkey : key (bound + 1) (word ++ ']' :: (more ++ '\n' :: rest)) =
      some ([String.ofList word], ']' :: (more ++ '\n' :: rest)) :=
    key_bare h rfl rfl (by decide)
  have hcut : cut? (']' :: more) (']' :: (more ++ '\n' :: rest)) = some ('\n' :: rest) :=
    cut?_append (']' :: more) ('\n' :: rest)
  simp only [header, hkey, hcut, Option.bind_eq_bind, Option.bind_some]
  rfl

/-- A header opens its table. -/
theorem documentLines_header (h : IsBare word)
    (hopen : entries.openTable [String.ofList word] = some changed) (rest : List Char) :
    documentLines (bound + 1) (limit + 1) opened entries ('[' :: (word ++ ']' :: '\n' :: rest)) =
      documentLines (bound + 1) limit [String.ofList word] changed rest := by
  have hheader : header (bound + 1) [']'] (word ++ ']' :: '\n' :: rest) =
      some ([String.ofList word], rest) := header_bare h [] rest
  obtain ⟨first, more, rfl, hfirst⟩ := h.exists_cons
  have hspace : skipSpace ('[' :: (first :: more ++ ']' :: '\n' :: rest)) =
      '[' :: (first :: more ++ ']' :: '\n' :: rest) := rfl
  rw [documentLines, hspace]
  simp only [List.cons_append] at hheader ⊢
  split
  · simp_all
  · simp_all
  · next heq => exact absurd (List.cons.inj (List.cons.inj heq).2).1 (hfirst _ rfl)
  · next heq =>
    obtain ⟨-, rfl⟩ := List.cons.inj heq
    simp only [hheader, hopen, Option.bind_eq_bind, Option.bind_some]
  · simp_all

/-- A header in two brackets appends to its list of tables. -/
theorem documentLines_tables (h : IsBare word)
    (hopen : entries.appendTable [String.ofList word] = some changed) (rest : List Char) :
    documentLines (bound + 1) (limit + 1) opened entries
        ('[' :: '[' :: (word ++ ']' :: ']' :: '\n' :: rest)) =
      documentLines (bound + 1) limit [String.ofList word] changed rest := by
  have hheader : header (bound + 1) [']', ']'] (word ++ ']' :: ']' :: '\n' :: rest) =
      some ([String.ofList word], rest) := header_bare h [']'] rest
  have hspace : skipSpace ('[' :: '[' :: (word ++ ']' :: ']' :: '\n' :: rest)) =
      '[' :: '[' :: (word ++ ']' :: ']' :: '\n' :: rest) := rfl
  simp only [documentLines, hspace, hheader, hopen, Option.bind_eq_bind, Option.bind_some]

/-- A key with a value is set in the table that was opened last. -/
theorem documentLines_keyValue (h : IsBare word) (htext : skipSpace text = text)
    (hread : value (bound + 1) (depthBound - 1) text = some (v, '\n' :: rest))
    (hset : entries.setUnder opened [String.ofList word] v = some changed) :
    documentLines (bound + 1) (limit + 1) opened entries (word ++ ' ' :: '=' :: ' ' :: text) =
      documentLines (bound + 1) limit opened changed rest := by
  have hkey : key (bound + 1) (word ++ ' ' :: '=' :: ' ' :: text) =
      some ([String.ofList word], '=' :: ' ' :: text) := key_bare h rfl rfl (by decide)
  have hblank : skipSpace (' ' :: text) = text := htext
  have hkeyValue : keyValue (bound + 1) (value (bound + 1) (depthBound - 1))
      (word ++ ' ' :: '=' :: ' ' :: text) = some (([String.ofList word], v), '\n' :: rest) := by
    simp [keyValue, hkey, cut?, hblank, hread]
  have hfinish : finishLine ('\n' :: rest) = some rest := rfl
  have hspace := skipSpace_bare h (' ' :: '=' :: ' ' :: text)
  obtain ⟨first, more, rfl, hfirst⟩ := h.exists_cons
  have hline : lineEnd? (first :: more ++ ' ' :: '=' :: ' ' :: text) = none := by
    unfold lineEnd?
    split
    · next heq => exact absurd (List.cons.inj heq).1 (hfirst _ rfl)
    · next heq => exact absurd (List.cons.inj heq).1 (hfirst _ rfl)
    · rfl
  rw [documentLines, hspace]
  split
  · next heq => exact absurd heq (List.cons_ne_nil _ _)
  · next heq => exact absurd (List.cons.inj heq).1 (hfirst _ rfl)
  · next heq => exact absurd (List.cons.inj heq).1 (hfirst _ rfl)
  · next heq => exact absurd (List.cons.inj heq).1 (hfirst _ rfl)
  · simp only [hline, hkeyValue, hset, hfinish, Option.bind_eq_bind, Option.bind_some]

end Segmentation.Toml

namespace Segmentation.Configuration

open Toml

/-- A configuration with one event file and one segment that has no filters. -/
def oneSegmentText (file name : String) : String :=
  "[input]\nfiles = [\"" ++ file ++ "\"]\n[[segments]]\nname = \"" ++ name ++ "\"\n"

/-- Its characters, line by line. -/
theorem toList_oneSegmentText (file name : String) : (oneSegmentText file name).toList =
    '[' :: ("input".toList ++ ']' :: '\n' ::
      ("files".toList ++ ' ' :: '=' :: ' ' :: '[' :: '"' :: (file.toList ++ '"' :: ']' :: '\n' ::
        '[' :: '[' :: ("segments".toList ++ ']' :: ']' :: '\n' ::
          ("name".toList ++ ' ' :: '=' :: ' ' :: '"' :: (name.toList ++ '"' :: ['\n'])))))) := by
  have hfront : "[input]\nfiles = [\"".toList = '[' :: ("input".toList ++ ']' :: '\n' ::
      ("files".toList ++ [' ', '=', ' ', '[', '"'])) := by simp
  have hmiddle : "\"]\n[[segments]]\nname = \"".toList = '"' :: ']' :: '\n' ::
      '[' :: '[' :: ("segments".toList ++ ']' :: ']' :: '\n' ::
        ("name".toList ++ [' ', '=', ' ', '"'])) := by simp
  have hback : "\"\n".toList = '"' :: ['\n'] := by simp
  unfold oneSegmentText
  simp only [String.toList_append, hfront, hmiddle, hback, List.append_assoc, List.cons_append,
    List.nil_append]

/-- The four lines, one after the other. -/
theorem documentLines_oneSegmentText {file name : String} (hfile : IsPlain file.toList)
    (hname : IsPlain name.toList) {bound : ℕ} (hfileBound : file.toList.length < bound + 1)
    (hnameBound : name.toList.length < bound + 1) (limit : ℕ) :
    documentLines (bound + 1) (limit + 5) [] [] (oneSegmentText file name).toList = some
      [("input", .table .header [("files", .value (.array [.string file]))]),
        ("segments", .tables [] [("name", .value (.string name))])] := by
  have hinput : IsBare "input".toList := by constructor <;> simp [isBareKey]
  have hfiles : IsBare "files".toList := by constructor <;> simp [isBareKey]
  have hsegments : IsBare "segments".toList := by constructor <;> simp [isBareKey]
  have hkey : IsBare "name".toList := by constructor <;> simp [isBareKey]
  rw [toList_oneSegmentText, documentLines_header hinput rfl,
    documentLines_keyValue hfiles rfl (value_single hfile hfileBound _) rfl,
    documentLines_tables hsegments rfl,
    documentLines_keyValue hkey rfl (value_quoted hname hnameBound _) rfl]
  simp only [String.ofList_toList]
  rfl

/-- It is read as it is meant, whatever the length of the names. -/
theorem read_oneSegmentText {file name : String} (hfile : IsPlain file.toList)
    (hname : IsPlain name.toList) :
    read (oneSegmentText file name) = some
      { inputs := [file], settings := Settings.default, format := .text, listsMembers := false,
        segments := [⟨name, none⟩] } := by
  have hlength : ∃ limit, (oneSegmentText file name).toList.length = limit + 4 ∧
      file.toList.length < limit + 5 ∧ name.toList.length < limit + 5 := by
    refine ⟨(oneSegmentText file name).toList.length - 4, ?_⟩
    rw [toList_oneSegmentText]
    simp only [List.length_cons, List.length_append]
    omega
  obtain ⟨limit, hlimit, hfileBound, hnameBound⟩ := hlength
  have hlines := documentLines_oneSegmentText hfile hname hfileBound hnameBound limit
  have hmark : dropMark (oneSegmentText file name).toList = (oneSegmentText file name).toList := by
    rw [toList_oneSegmentText]
    rfl
  have hdocument : Toml.read (oneSegmentText file name) = some (.table
      [("input", .table [("files", .array [.string file])]),
        ("segments", .array [.table [("name", .string name)]])]) := by
    simp only [Toml.read, hmark, hlimit, hlines, Option.bind_eq_bind, Option.bind_some]
    rfl
  rw [Configuration.read, hdocument]
  rfl

end Segmentation.Configuration
