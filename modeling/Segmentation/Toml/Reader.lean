import Segmentation.Toml.Scalar
import Segmentation.Toml.Table

/-!
Reading TOML documents. A document is a list of lines: keys with values, and headers that say in
which table the keys after them stand. A text that is no TOML has no document.
-/

set_option autoImplicit false

namespace Segmentation.Toml

open Text

/-- The number of nested arrays and inline tables, and of the keys in a dotted one, that a document
stays below. -/
def depthBound : Nat := 80

/-! ### Blanks and comments -/

/-- Past a comment, if there is one. -/
def skipComment : List Char → List Char
  | '#' :: rest => rest.dropWhile isInline
  | text => text

/-- Past blanks and a comment to the next line, or to the end of the text. -/
def finishLine (text : List Char) : Option (List Char) :=
  match skipComment (skipSpace text) with
  | [] => some []
  | rest => lineEnd? rest

/-- Past blanks, comments and ends of lines. -/
def skipFiller : Nat → List Char → Option (List Char)
  | 0, _ => none
  | limit + 1, text =>
    match skipSpace text with
    | '#' :: rest => do
      let rest ← finishLine ('#' :: rest)
      skipFiller limit rest
    | rest =>
      match lineEnd? rest with
      | some rest => skipFiller limit rest
      | none => some rest

/-! ### Keys -/

def isBareKey (c : Char) : Bool :=
  isDigit c || ('a' ≤ c && c ≤ 'z') || ('A' ≤ c && c ≤ 'Z') || c == '_' || c == '-'

/-- One part of a key. -/
def simpleKey (limit : Nat) : Scan String
  | '"' :: rest => (basicBody limit rest).map fun (body, rest) ↦ (String.ofList body, rest)
  | '\'' :: rest => (literalBody rest).map fun (body, rest) ↦ (String.ofList body, rest)
  | text =>
    let word := text.takeWhile isBareKey
    if word.isEmpty then none else some (String.ofList word, text.dropWhile isBareKey)

/-- The parts of a key, with dots between them. -/
def keyParts (bound : Nat) : Nat → Scan (List String)
  | 0, _ => none
  | limit + 1, text => do
    let (part, rest) ← simpleKey bound (skipSpace text)
    match skipSpace rest with
    | '.' :: rest =>
      let (more, rest) ← keyParts bound limit rest
      some (part :: more, rest)
    | rest => some ([part], rest)

/-- A key with the blanks around it. -/
def key (limit : Nat) : Scan (List String) := fun text ↦ do
  let (parts, rest) ← keyParts limit limit text
  if parts.length < depthBound then some (parts, rest) else none

/-! ### Values -/

/-- The remaining items of an array, past its closing bracket. -/
def arrayItems (bound : Nat) (read : Scan Toml) : Nat → Scan (List Toml)
  | 0, _ => none
  | limit + 1, text => do
    match ← skipFiller bound text with
    | ']' :: rest => some ([], rest)
    | text =>
      let (item, rest) ← read text
      match ← skipFiller bound rest with
      | ',' :: rest =>
        let (more, rest) ← arrayItems bound read limit rest
        some (item :: more, rest)
      | ']' :: rest => some ([item], rest)
      | _ => none

/-- A key with its value, on one line. -/
def keyValue (limit : Nat) (read : Scan Toml) : Scan (List String × Toml) := fun text ↦ do
  let (path, rest) ← key limit text
  let (v, rest) ← read (skipSpace (← cut? ['='] rest))
  some ((path, v), rest)

/-- The remaining entries of an inline table that has at least one more, past its closing
bracket. -/
def inlineEntries (bound : Nat) (read : Scan Toml) : Nat → Entries → Scan Entries
  | 0, _, _ => none
  | limit + 1, entries, text => do
    let ((path, v), rest) ← keyValue bound read text
    let entries ← entries.set path v
    match skipSpace rest with
    | ',' :: rest => inlineEntries bound read limit entries rest
    | '\x7d' :: rest => some (entries, rest)
    | _ => none

/-- An inline table, after its opening bracket. -/
def inlineTable (limit : Nat) (read : Scan Toml) : Scan Toml := fun text ↦
  match skipSpace text with
  | '\x7d' :: rest => some (.table [], rest)
  | text => do
    let (entries, rest) ← inlineEntries limit read limit [] text
    some (.table (finishEntries entries), rest)

/-- A scalar, told by its first character. -/
def scalar (limit : Nat) : Scan Toml := fun text ↦
  match text with
  | [] => none
  | c :: _ =>
    if c = '"' ∨ c = '\'' then (stringLiteral limit text).map fun (s, rest) ↦ (.string s, rest)
    else if c = 't' then (cut? "true".toList text).map fun rest ↦ (.boolean true, rest)
    else if c = 'f' then (cut? "false".toList text).map fun rest ↦ (.boolean false, rest)
    else match dateOrTime text with
      | some result => some result
      | none => number text

/-- A value whose bracketed parts are read by another scan; without one, no bracket may open. -/
def valueWith (limit : Nat) (inner : Option (Scan Toml)) : Scan Toml
  | '[' :: rest => do
    let (items, rest) ← arrayItems limit (← inner) limit rest
    some (.array items, rest)
  | '\x7b' :: rest => do inlineTable limit (← inner) rest
  | text => scalar limit text

/-- A value in which a number of brackets may be open at once. -/
def value (limit : Nat) : Nat → Scan Toml
  | 0 => valueWith limit none
  | depth + 1 => valueWith limit (some (value limit depth))

/-! ### Documents -/

/-- The keys of a header, past its brackets and its line. -/
def header (limit : Nat) (closing : List Char) : Scan (List String) := fun text ↦ do
  let (path, rest) ← key limit text
  some (path, ← finishLine (← cut? closing rest))

/-- The remaining lines of a document; `opened` is the table that the last header opened. -/
def documentLines (bound : Nat) : Nat → List String → Entries → List Char → Option Entries
  | 0, _, _, _ => none
  | limit + 1, opened, entries, text =>
    match skipSpace text with
    | [] => some entries
    | '#' :: rest => do documentLines bound limit opened entries (← finishLine ('#' :: rest))
    | '[' :: '[' :: rest => do
      let (path, rest) ← header bound [']', ']'] rest
      documentLines bound limit path (← entries.appendTable path) rest
    | '[' :: rest => do
      let (path, rest) ← header bound [']'] rest
      documentLines bound limit path (← entries.openTable path) rest
    | text =>
      match lineEnd? text with
      | some rest => documentLines bound limit opened entries rest
      | none => do
        let ((path, v), rest) ← keyValue bound (value bound (depthBound - 1)) text
        documentLines bound limit opened (← entries.setUnder opened path v) (← finishLine rest)

/-- A text without a byte order mark in front. -/
def dropMark : List Char → List Char
  | '\ufeff' :: rest => rest
  | text => text

/-- The document that a text holds. -/
def read (text : String) : Option Toml := do
  let chars := dropMark text.toList
  let entries ← documentLines (chars.length + 1) (chars.length + 1) [] [] chars
  some (.table (finishEntries entries))

end Segmentation.Toml
