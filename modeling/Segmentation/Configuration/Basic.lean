import Segmentation.Files.Path
import Segmentation.Filter.Basic
import Segmentation.Log
import Segmentation.Settings

/-!
Configurations: where the events of a report come from, how they are evaluated, against which
segments, and how the report is written. A configuration has to list an event file, and no two of
its segments may have the same name; filters with unknown conditions are allowed but warned about.
-/

set_option autoImplicit false

namespace Segmentation

/-- The form of a report. -/
inductive Configuration.Format where
  | text
  | json
  deriving DecidableEq

structure Configuration where
  /-- The event files; relative paths start at the directory of the configuration. -/
  inputs : List String
  settings : Settings
  format : Configuration.Format
  /-- Whether a report lists the members of each segment. -/
  listsMembers : Bool
  segments : List Segment

namespace Configuration

/-- The paths of the event files, seen from where a directory is. -/
def resolvedInputs (configuration : Configuration) (directory : String) : List String :=
  configuration.inputs.map (Path.join directory)

/-- What is wrong with a configuration that could be read. -/
inductive Defect where
  | noInputs
  | duplicateSegment (name : String)
  deriving DecidableEq

def Defect.message : Defect → String
  | .noInputs => "[input] files must list at least one event file"
  | .duplicateSegment name => "Duplicate segment name: " ++ name

/-- The warning about a filter that is always satisfied. -/
def unknownWarning (segment : Segment) (filter : Filter) : Log.Entry :=
  ⟨.warn, .configuration, "Segment '" ++ segment.name ++ "' uses unknown condition '" ++
    filter.condition.text ++ "'; that filter will always pass"⟩

/-- The warnings about one segment. -/
def segmentWarnings (segment : Segment) : List Log.Entry :=
  segment.unknownFilters.map (unknownWarning segment)

/-- The first segment whose name was seen before, with the warnings about the segments up to
there. -/
def checkNames (seen : List String) : List Segment → Logged (Except Defect Unit)
  | [] => ⟨[], .ok ()⟩
  | segment :: rest =>
    if segment.name ∈ seen then ⟨[], .error (.duplicateSegment segment.name)⟩
    else
      let after := checkNames (segment.name :: seen) rest
      ⟨segmentWarnings segment ++ after.entries, after.value⟩

/-- Whether a configuration can be used, with the warnings about it. -/
def check (configuration : Configuration) : Logged (Except Defect Unit) :=
  if configuration.inputs.isEmpty then ⟨[], .error .noInputs⟩
  else checkNames [] configuration.segments

end Configuration

end Segmentation
