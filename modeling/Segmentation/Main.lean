import Segmentation.Command.Conduct

/-!
The command itself. The files that the run may need are read first; the run is then a function of
their contents, and its actions are carried out one after the other. There is one worker, who takes
the tasks in turn.
-/

set_option autoImplicit false

namespace Segmentation.Command

/-- The text of a file on disk, or why it cannot be read. A directory can be opened and fails only
when it is read, so its error does not name a file. -/
def readFile (path : String) : IO (Except ReadFault String) := do
  try
    let bytes ← IO.FS.readBinFile path
    match String.fromUTF8? bytes with
    | some text => return .ok text
    | none => return .error .notText
  catch
    | .inappropriateType (some _) _ _ => return .error .notDirectory
    | .inappropriateType none _ _ => return .error .isDirectory
    | _ => return .error .notFound

/-- The contents of some files. -/
def readFiles (paths : List String) : IO (List (String × Except ReadFault String)) :=
  paths.mapM fun path ↦ do return (path, ← readFile path)

/-- Files that were read before; no other file is there. -/
def readerOf (contents : List (String × Except ReadFault String)) : FileReader := fun path ↦
  match contents.lookup path with
  | some result => result
  | none => .error .notFound

/-- The contents of the files that some arguments lead to. -/
def gather (arguments : List String) : IO FileReader := do
  match readArguments arguments with
  | .ok (.run request) =>
    let named ← readFiles (wantedFiles request fun _ ↦ .error .notFound)
    let listed ← readFiles (wantedFiles request (readerOf named))
    return readerOf (named ++ listed)
  | _ => return fun _ ↦ .error .notFound

/-- Carries out an action of a run whose log is kept at a level. -/
def carryOut (level : Log.Level) : Action → IO Unit
  | .log entry => do if level.admits entry.level then IO.eprint (entry.line ++ "\n")
  | .write text => IO.print text

/-- A host with one worker. -/
def singleWorker : Host := ⟨1, .inTurn⟩

/-- Carries out a run, and gives its exit code. -/
def carryOutRun (arguments : Arguments) (files : FileReader) : IO UInt32 := do
  let acting := (conduct singleWorker arguments files).run
  acting.actions.forM (carryOut arguments.level)
  match acting.value with
  | .ok .finished => return 0
  | .ok .brokenOff =>
    IO.eprint (brokenOffText singleWorker.mainThread)
    return 101
  | .error failure =>
    IO.eprint failure.describe
    return 1

end Segmentation.Command

def main (arguments : List String) : IO UInt32 := do
  let files ← Segmentation.Command.gather arguments
  match Segmentation.Command.readArguments arguments with
  | .ok (.run request) => Segmentation.Command.carryOutRun request files
  | _ =>
    let response := Segmentation.Command.execute Segmentation.Command.singleWorker arguments files
    IO.print response.output
    IO.eprint response.diagnostics
    return UInt32.ofNat response.exitCode
