import Segmentation.Configuration.Basic
import Segmentation.EventFile
import Segmentation.Files.Tree

/-!
Why a run fails. A failure is a chain of causes: what could not be done, and below it what stood in
the way. It is shown with the outermost cause first; several deeper ones are numbered.
-/

set_option autoImplicit false

namespace Segmentation

/-- What a file is read for. -/
inductive FileRole where
  | event
  | filter
  | configuration
  deriving DecidableEq

def FileRole.name : FileRole → String
  | .event => "event"
  | .filter => "filter"
  | .configuration => "config"

/-- Why a run fails. -/
inductive Failure where
  | unreadable (role : FileRole) (path : String) (fault : ReadFault)
  | badEvents (path : String) (refusal : EventFile.Refusal)
  | badFilters (path : String) (error : Json.ReadError)
  | malformedConfiguration (path : String)
  | invalidConfiguration (path : String) (defect : Configuration.Defect)

namespace Failure

/-- The causes of a failure, outermost first. Of a configuration that is no TOML, or not of the
right form, the message of the reader is left out, and a fixed text stands for it: what is read here
is whether there is a configuration, not why there is none. -/
def causes : Failure → List String
  | .unreadable role path fault =>
    ["Failed to read " ++ role.name ++ " file: " ++ Text.quoted path, fault.message]
  | .badEvents path refusal =>
    ("Failed to parse event file: " ++ Text.quoted path) :: refusal.causes
  | .badFilters path error =>
    ["Failed to parse filter file: " ++ Text.quoted path,
      "Invalid filter list: " ++ error.message, error.message]
  | .malformedConfiguration path =>
    ["Failed to parse config file: " ++ Text.quoted path, "TOML parse error"]
  | .invalidConfiguration path defect =>
    ["Invalid config file: " ++ Text.quoted path, defect.message]

/-- A failure on one line. -/
def message (failure : Failure) : String := ": ".intercalate failure.causes

/-- A text with every line after the first one indented. -/
def indentLines (margin : Nat) (text : String) : String :=
  String.ofList (text.toList.flatMap fun c ↦
    if c = '\n' then '\n' :: List.replicate margin ' ' else [c])

/-- A cause under a number. -/
def numbered (number : Nat) (cause : String) : String :=
  String.ofList (List.replicate (5 - (toString number).length) ' ') ++ toString number ++ ": " ++
    indentLines 7 cause

/-- Causes under consecutive numbers. -/
def numberedFrom (start : Nat) : List String → List String
  | [] => []
  | cause :: rest => numbered start cause :: numberedFrom (start + 1) rest

/-- The deeper causes, one below the other. -/
def describeCauses : List String → List String
  | [] => []
  | [cause] => ["    " ++ indentLines 4 cause]
  | causes => numberedFrom 0 causes

/-- A failure as it is shown at the end of a run. -/
def describe (failure : Failure) : String :=
  match failure.causes with
  | [] => "Error: \n"
  | [cause] => "Error: " ++ cause ++ "\n"
  | cause :: rest =>
    "Error: " ++ cause ++ "\n\nCaused by:\n" ++ "\n".intercalate (describeCauses rest) ++ "\n"

end Failure

/-- A computation that logs lines and may fail. -/
abbrev Attempt (α : Type) := ExceptT Failure Logged α

namespace Attempt

variable {α : Type}

/-- A computation that cannot fail. -/
def ofLogged (logged : Logged α) : Attempt α := ⟨logged.entries, .ok logged.value⟩

/-- A computation that logs nothing. -/
def ofExcept (result : Except Failure α) : Attempt α := ⟨[], result⟩

/-- Logs one line. -/
def log (level : Log.Level) (source : Log.Source) (text : String) : Attempt Unit :=
  ofLogged (Logged.log level source text)

end Attempt

end Segmentation
