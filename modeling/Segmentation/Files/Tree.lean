import Segmentation.Text.Lines

/-!
Files by their relative names, and reading one of them as text. A file is found by walking the parts
of its path from the top directory; what lies outside the tree is not there.
-/

set_option autoImplicit false

namespace Segmentation

/-- Why a file cannot be read as text. -/
inductive ReadFault where
  | notFound
  | notDirectory
  | isDirectory
  | invalidName
  | notText
  deriving DecidableEq

def ReadFault.message : ReadFault → String
  | .notFound => "No such file or directory (os error 2)"
  | .notDirectory => "Not a directory (os error 20)"
  | .isDirectory => "Is a directory (os error 21)"
  | .invalidName => "file name contained an unexpected NUL byte"
  | .notText => "stream did not contain valid UTF-8"

/-- Reading the files of a run: what each path holds, or why it cannot be read. -/
abbrev FileReader := String → Except ReadFault String

/-- The contents of files under their relative names. -/
abbrev FileTree := List (String × ByteArray)

namespace FileTree

/-- The names of a file's directories and of the file itself. -/
def parts (name : String) : List String := (Text.splitAt '/' name.toList).map String.ofList

/-- What stands at a place in the tree. -/
inductive Found where
  | file (content : ByteArray)
  | directory
  | nothing

/-- What stands at a place, given by the parts of its name. -/
def at? (tree : FileTree) (place : List String) : Found :=
  match tree.find? fun entry ↦ parts entry.1 == place with
  | some entry => .file entry.2
  | none =>
    if place.isEmpty || tree.any fun entry ↦ place.isPrefixOf (parts entry.1) then .directory
    else .nothing

/-- The place that some parts lead to from a directory. A part that is empty or a dot stays, two
dots lead back; every place on the way has to be a directory. -/
def walk (tree : FileTree) (place : List String) : List String → Except ReadFault (List String)
  | [] => .ok place
  | part :: rest =>
    match tree.at? place with
    | .nothing => .error .notFound
    | .file _ => .error .notDirectory
    | .directory =>
      if part = "" ∨ part = "." then walk tree place rest
      else if part = ".." then
        if place.isEmpty then .error .notFound else walk tree place.dropLast rest
      else walk tree (place ++ [part]) rest

/-- The text of a file. -/
def read (tree : FileTree) : FileReader := fun path ↦
  if path.isEmpty then .error .notFound
  else if path.toList.contains (Char.ofNat 0) then .error .invalidName
  else if path.toList.head? == some '/' then .error .notFound
  else do
    match tree.at? (← tree.walk [] (parts path)) with
    | .nothing => .error .notFound
    | .directory => .error .isDirectory
    | .file content =>
      match String.fromUTF8? content with
      | some text => .ok text
      | none => .error .notText

end FileTree

end Segmentation
