import Segmentation.Text.Lines
import Segmentation.Text.Quoted

/-!
Paths as texts with slashes. Joining and taking the directory follow the parts of a path, but leave
the text of what they keep as it was written.
-/

set_option autoImplicit false

namespace Segmentation.Path

/-- A path that starts at the root. -/
def isAbsolute (path : String) : Bool := path.toList.head? == some '/'

/-- A path taken from a directory. An absolute path stays as it is. -/
def join (directory path : String) : String :=
  if isAbsolute path then path
  else if directory.isEmpty || directory.toList.getLast? == some '/' then directory ++ path
  else directory ++ "/" ++ path

/-- The front of a path that is no part of its body: the root, or the current directory named
first. -/
def anchor : List Char → List Char × List Char
  | '/' :: rest => (['/'], rest)
  | '.' :: '/' :: rest => (['.'], '/' :: rest)
  | ['.'] => (['.'], [])
  | path => ([], path)

/-- A part of a path that leads nowhere. -/
def isIdle (part : List Char) : Bool := part.isEmpty || part == ['.']

/-- The directory of a path. A path without parts lies in the current directory. -/
def parent (path : String) : String :=
  let (front, body) := anchor path.toList
  match (Text.splitAt '/' body).reverse.dropWhile isIdle with
  | [] => if front = ['.'] then "" else "."
  | _ :: outer =>
    String.ofList (front ++ List.intercalate ['/'] (outer.dropWhile isIdle).reverse)

end Segmentation.Path
