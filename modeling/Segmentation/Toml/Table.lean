import Segmentation.Members
import Segmentation.Toml.Scalar

/-!
Tables under construction. A TOML document adds to its tables from many places, and what may be
added depends on how a table came to be: a table with a header of its own is closed to dotted keys
from outside, a table made by dotted keys has no header, and a table that is merely on the way to
another may still get one. Every key is set once.
-/

set_option autoImplicit false

namespace Segmentation.Toml

/-- How a table came to be. -/
inductive Origin where
  /-- On the way to a table with a header. -/
  | implied
  /-- On the way to a dotted key. -/
  | dotted
  /-- By a header of its own. -/
  | header
  deriving DecidableEq

/-- What a key stands for while the document is read. -/
inductive Node where
  | value (v : Toml)
  | table (origin : Origin) (entries : List (String × Node))
  /-- A list of tables, of which only the last one still grows. -/
  | tables (earlier : List Toml) (last : List (String × Node))

mutual

/-- A finished node. -/
def Node.finish : Node → Toml
  | .value v => v
  | .table _ entries => .table (finishEntries entries)
  | .tables earlier last => .array (earlier ++ [.table (finishEntries last)])

def finishEntries : List (String × Node) → List (String × Toml)
  | [] => []
  | (key, node) :: rest => (key, node.finish) :: finishEntries rest

end

/-- The entries of a table under construction. -/
abbrev Entries := List (String × Node)

/-- An edit of the table that a path leads to, given how that table came to be. Missing tables on
the way are made with the origin `making`; a dotted path does not lead through a table with a
header. -/
def Entries.edit (making : Origin) (change : Origin → Entries → Option Entries) :
    List String → Origin → Entries → Option Entries
  | [], own, entries => change own entries
  | key :: path, _, entries =>
    match Members.get? key entries with
    | none => do
      let inner ← edit making change path making []
      some (Members.insert key (.table making inner) entries)
    | some (.value _) => none
    | some (.table own inner) =>
      if making = .dotted ∧ own = .header then none
      else do
        let inner ← edit making change path own inner
        some (Members.insert key (.table own inner) entries)
    | some (.tables earlier last) => do
      let inner ← edit making change path .header last
      some (Members.insert key (.tables earlier inner) entries)

/-- A path without its last key, and that key. -/
def cutLast : List String → Option (List String × String)
  | [] => none
  | [key] => some ([], key)
  | key :: rest => (cutLast rest).map fun (path, last) ↦ (key :: path, last)

/-- A key set to a value. A dotted key ends in a table made by dotted keys. -/
def Entries.set (path : List String) (v : Toml) (entries : Entries) : Option Entries := do
  let (way, key) ← cutLast path
  let change := fun (own : Origin) (entries : Entries) ↦
    if way ≠ [] ∧ own ≠ .dotted then none
    else match Members.get? key entries with
      | some _ => none
      | none => some (Members.insert key (.value v) entries)
  entries.edit .dotted change way .header

/-- A table opened by its header. -/
def Entries.openTable (path : List String) (entries : Entries) : Option Entries := do
  let (way, key) ← cutLast path
  let change := fun (_ : Origin) (entries : Entries) ↦
    match Members.get? key entries with
    | none => some (Members.insert key (.table .header []) entries)
    | some (.table .implied inner) => some (Members.insert key (.table .header inner) entries)
    | some _ => none
  entries.edit .implied change way .header

/-- One more table in a list of tables. -/
def Entries.appendTable (path : List String) (entries : Entries) : Option Entries := do
  let (way, key) ← cutLast path
  let change := fun (_ : Origin) (entries : Entries) ↦
    match Members.get? key entries with
    | none => some (Members.insert key (.tables [] []) entries)
    | some (.tables earlier last) =>
      some (Members.insert key (.tables (earlier ++ [.table (finishEntries last)]) []) entries)
    | some _ => none
  entries.edit .implied change way .header

/-- A key set in the table that a header has opened. -/
def Entries.setUnder (table path : List String) (v : Toml) (entries : Entries) :
    Option Entries :=
  entries.edit .implied (fun _ inner ↦ inner.set path v) table .header

end Segmentation.Toml
