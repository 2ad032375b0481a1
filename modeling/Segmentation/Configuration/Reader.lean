import Segmentation.Configuration.Basic
import Segmentation.Filter.Reader
import Segmentation.Toml.Reader

/-!
Reading configurations. A record may be a table or an array of its fields in order; keys that are no
fields are passed over. A date stands for a record without fields. Only the event files, and the
name of each segment, have to be given.
-/

set_option autoImplicit false

namespace Segmentation.Configuration

/-- The value of a field in a table, which may have it under one of several names but not under
two. -/
def fieldIn (entries : List (String × Toml)) (names : List String) : Option (Option Toml) :=
  match names.filterMap fun name ↦ Members.get? name entries with
  | [] => some none
  | [value] => some (some value)
  | _ => none

/-- The fields of a record, each given by its names. -/
def fieldsOf (fields : List (List String)) : Toml → Option (List (Option Toml))
  | .table entries => fields.mapM (fieldIn entries)
  | .array items => some ((List.range fields.length).map (items[·]?))
  | .dateTime => some (fields.map fun _ ↦ none)
  | _ => none

/-- The value of a field that may be absent and then has a default. -/
def readOr {α : Type} (default : α) (read : Toml → Option α) : Option Toml → Option α
  | none => some default
  | some value => read value

def readText : Toml → Option String
  | .string s => some s
  | _ => none

def readBoolean : Toml → Option Bool
  | .boolean b => some b
  | _ => none

/-- A text of exactly one character. -/
def readChar : Toml → Option Char
  | .string s =>
    match s.toList with
    | [c] => some c
    | _ => none
  | _ => none

/-- The items of an array, each read in the same way. -/
def readList {α : Type} (read : Toml → Option α) : Toml → Option (List α)
  | .array items => items.mapM read
  | _ => none

/-- The text of an operand that is given as a scalar. -/
def readOperand : Toml → Option String
  | .string s => some s
  | .integer n => some (toString n)
  | .float x => some (Numeral.write x)
  | .boolean b => some (if b then "true" else "false")
  | _ => none

def readFilter (document : Toml) : Option Filter := do
  let fields ← fieldsOf
    [["propertyName", "property_name"], ["condition"], ["propertyValue", "property_value"]] document
  match fields with
  | [some name, some condition, operand] =>
    some ⟨← readText name, Condition.parse (← readText condition), ← readOr "" readOperand operand⟩
  | _ => none

def readSegment (document : Toml) : Option Segment := do
  match ← fieldsOf [["name"], ["filters"]] document with
  | [some name, filters] =>
    some ⟨← readText name, ← readOr none (fun list ↦ (readList readFilter list).map some) filters⟩
  | _ => none

def readSettings (document : Toml) : Option Settings := do
  let names := [["nested_paths"], ["path_separator"], ["warn_on_unknown_condition"]]
  match ← fieldsOf names document with
  | [nested, separator, warn] =>
    some ⟨← readOr Settings.default.nestedPaths readBoolean nested,
      ← readOr Settings.default.pathSeparator readChar separator,
      ← readOr Settings.default.warnOnUnknownCondition readBoolean warn⟩
  | _ => none

/-- The format with a name. -/
def formatNamed (name : String) : Option Format :=
  if name = "txt" then some .text else if name = "json" then some .json else none

/-- A format: its name, or its name as the only key of a table, without contents. -/
def readFormat : Toml → Option Format
  | .string name => formatNamed name
  | .table [(name, .table [])] => formatNamed name
  | .table [(name, .array [])] => formatNamed name
  | _ => none

/-- The form of the report, and whether it lists members. -/
def readOutput (document : Toml) : Option (Format × Bool) := do
  match ← fieldsOf [["format"], ["list_members"]] document with
  | [format, members] => some (← readOr .text readFormat format, ← readOr false readBoolean members)
  | _ => none

def readInputs (document : Toml) : Option (List String) := do
  match ← fieldsOf [["files"]] document with
  | [some files] => readList readText files
  | _ => none

/-- The configuration that a document describes. -/
def ofToml (document : Toml) : Option Configuration := do
  match ← fieldsOf [["input"], ["evaluator"], ["output"], ["segments"]] document with
  | [some input, evaluator, output, segments] =>
    let (format, members) ← readOr (.text, false) readOutput output
    some
      { inputs := ← readInputs input
        settings := ← readOr Settings.default readSettings evaluator
        format := format
        listsMembers := members
        segments := ← readOr [] (readList readSegment) segments }
  | _ => none

/-- The configuration that a text describes. -/
def read (text : String) : Option Configuration := do ofToml (← Toml.read text)

end Segmentation.Configuration
