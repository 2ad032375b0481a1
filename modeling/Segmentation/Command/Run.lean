import Segmentation.Command.Arguments
import Segmentation.Command.Loading
import Segmentation.Report.Rendering
import Segmentation.Verdict

/-!
Running the command. With an event file, its events are held against one filter list; with a
configuration, all its segments are reported on; with neither, a short hint is shown. Everything is
loaded before anything is written, so a run that fails has no output. A run can also break off: then
a report is a table that is too wide to be written. How much of the log is kept decides only which
of its lines are shown.

What a run leaves behind depends on its host in two ways. The segments and the events of a
configuration are shared out by the schedule of the host, and a run that breaks off names its main
thread by the number that the host has given to it.
-/

set_option autoImplicit false

namespace Segmentation.Command

/-- The version of the command and of the library. -/
def version : String := "0.1.0"

/-- Where a command runs. -/
structure Host where
  /-- The number of the thread that the command starts in. -/
  mainThread : Nat
  schedule : Schedule

/-! ### One filter list -/

/-- The settings of a run with one filter list. -/
def Arguments.settings (arguments : Arguments) : Settings :=
  { Settings.default with nestedPaths := !arguments.flat }

def matchWord (passed : Bool) : String := if passed then "match" else "no match"

/-- The line that states the verdict on an event. -/
def eventLine (index : Nat) (passed : Bool) : String :=
  "event #" ++ toString index ++ ": " ++ matchWord passed

/-- The line that states one outcome. -/
def outcomeLine (outcome : Outcome) : String :=
  "  [" ++ (if outcome.satisfied then "x" else " ") ++ "] " ++ outcome.propertyName ++ " " ++
    outcome.condition.text ++ ": " ++ outcome.reason.describe

/-- The lines about one event, and whether it matches. -/
def eventLines (arguments : Arguments) (filters : Option (List Filter)) (index : Nat)
    (event : Event) : Logged (Bool × List String) := do
  if arguments.explain then
    let verdict ← arguments.settings.judge event filters
    return (verdict.passed, eventLine index verdict.passed :: verdict.outcomes.map outcomeLine)
  else
    let passed ← arguments.settings.evaluate event filters
    return (passed, [eventLine index passed])

/-- The lines about some events, counted on from a position, and the number of those that match. -/
def eventsLines (arguments : Arguments) (filters : Option (List Filter)) (start : Nat) :
    List Event → Logged (Nat × List String)
  | [] => pure (0, [])
  | event :: rest => do
    let (passed, lines) ← eventLines arguments filters start event
    let (matched, more) ← eventsLines arguments filters (start + 1) rest
    return ((if passed then matched + 1 else matched), lines ++ more)

/-- Lines, each with its end. -/
def unlines (lines : List String) : String := String.join (lines.map (· ++ "\n"))

/-- The filter list of a run, if one is named. -/
def loadFilters (files : FileReader) : Option String → Attempt (Option (List Filter))
  | none => return none
  | some path => return some (← Load.filters files path)

/-- Every event of a file against one filter list. -/
def matchEvents (arguments : Arguments) (files : FileReader) (path : String) :
    Attempt String := do
  let events ← Load.events files path
  let filters ← loadFilters files arguments.filters
  let (matched, lines) ← Attempt.ofLogged (eventsLines arguments filters 0 events)
  Attempt.log .info .command
    (toString matched ++ " of " ++ toString events.length ++ " event(s) matched")
  return unlines lines

/-! ### A configuration -/

/-- Reports in the form that a configuration asks for; none if they cannot be written in it. -/
def render (configuration : Configuration) (reports : List Report) : Option String :=
  match configuration.format with
  | .text => Report.table configuration.listsMembers reports
  | .json => some (Report.jsonText configuration.listsMembers reports)

/-- Every segment of a configuration against the events of all its files. -/
def reportSegments (host : Host) (files : FileReader) (path : String) :
    Attempt (Option String) := do
  Attempt.log .info .command ("Loading configuration from: " ++ Text.quoted path)
  let configuration ← Load.configuration files path
  Attempt.log .debug .command "Configuration loaded successfully"
  let events ← Load.allEvents files (configuration.resolvedInputs (Path.parent path))
  Attempt.log .info .command ("Evaluating " ++ toString configuration.segments.length ++
    " segment(s) against " ++ toString events.length ++ " event(s)")
  let reports ← Attempt.ofLogged
    (Report.ofSegments host.schedule configuration.settings events configuration.segments)
  return render configuration reports

/-! ### The whole run -/

/-- What is shown when no input is named. -/
def hint : String :=
  unlines
    ["Segment Filter - No input specified",
      "",
      "Quick Start:",
      "  segment-filter-cli --event event.json --filters filters.json",
      "  segment-filter-cli --event events.jsonl --filters filters.json --explain",
      "",
      "For named segments:",
      "  segment-filter-cli --config config.toml",
      "",
      "Use --help for more options"]

/-- The answer to a request for help. -/
def help : String :=
  unlines
    ["Evaluate event records against segment filters",
      "",
      "Usage: segment-filter-cli [OPTIONS]",
      "",
      "Options:",
      "  -e, --event <FILE>    Path to an event file (JSON object, JSON array or JSON lines)",
      "  -f, --filters <FILE>  Path to a JSON filter list (omit to match every event)",
      "  -c, --config <FILE>   Path to configuration file (config.toml) with named segments",
      "      --explain         Print the outcome of every filter, not just the verdict",
      "      --flat            Treat property names as plain keys instead of dotted paths",
      "  -v, --verbose...      Verbosity level (can be repeated: -v, -vv)",
      "  -q, --quiet           Suppress all output except errors",
      "  -h, --help            Print help",
      "  -V, --version         Print version"]

/-- The answer to arguments that cannot be read. -/
def usage (error : UsageError) : String :=
  unlines
    ["error: " ++ error.message,
      "",
      "Usage: segment-filter-cli [OPTIONS]",
      "",
      "For more information, try '--help'."]

/-- The output of the mode that the arguments select; none if it breaks off. -/
def perform (host : Host) (arguments : Arguments) (files : FileReader) :
    Attempt (Option String) := do
  Attempt.log .info .command ("Segment Filter CLI v" ++ version)
  Attempt.log .debug .command ("Using segment-filter library v" ++ version)
  match arguments.event, arguments.config with
  | some path, _ => return some (← matchEvents arguments files path)
  | none, some path => reportSegments host files path
  | none, none => return some hint

/-- The level at which the log is kept. -/
def Arguments.level (arguments : Arguments) : Log.Level :=
  if arguments.quiet then .error
  else match arguments.verbose with
    | 0 => .info
    | 1 => .debug
    | _ => .trace

/-- What a run leaves behind. -/
structure Response where
  exitCode : Nat
  /-- The standard output. -/
  output : String
  /-- The standard error output: the log, then what went wrong if anything did. -/
  diagnostics : String
  deriving DecidableEq

/-- The lines of a log that a level admits, each with its end. -/
def logText (level : Log.Level) (entries : List Log.Entry) : String :=
  unlines ((Log.admitted level entries).map Log.Entry.line)

/-- What is shown at the end of a run that breaks off. -/
def brokenOffText (mainThread : Nat) : String :=
  unlines
    ["",
      "thread 'main' (" ++ toString mainThread ++
        ") panicked at segment-filter-cli/src/report.rs:70:13:",
      "Formatting argument out of range",
      "note: run with `RUST_BACKTRACE=1` environment variable to display a backtrace"]

/-- What a run leaves behind, by how it ends. -/
def conclude (host : Host) (log : String) : Except Failure (Option String) → Response
  | .ok (some output) => ⟨0, output, log⟩
  | .ok none => ⟨101, "", log ++ brokenOffText host.mainThread⟩
  | .error failure => ⟨1, "", log ++ failure.describe⟩

/-- A run with arguments that could be read. -/
def run (host : Host) (arguments : Arguments) (files : FileReader) : Response :=
  let attempt := (perform host arguments files).run
  conclude host (logText arguments.level attempt.entries) attempt.value

/-- What a command does with its arguments. -/
def execute (host : Host) (arguments : List String) (files : FileReader) : Response :=
  match readArguments arguments with
  | .error error => ⟨2, "", usage error⟩
  | .ok .version => ⟨0, "segment-filter-cli " ++ version ++ "\n", ""⟩
  | .ok .help => ⟨0, help, ""⟩
  | .ok (.run arguments) => run host arguments files

/-- The files that a run may read, given the contents of those named in the arguments. -/
def wantedFiles (arguments : Arguments) (files : FileReader) : List String :=
  let named := [arguments.event, arguments.filters, arguments.config].filterMap id
  let listed := match arguments.config with
    | none => []
    | some path =>
      match Load.configuration? files path with
      | .ok configuration => configuration.resolvedInputs (Path.parent path)
      | .error _ => []
  named ++ listed

end Segmentation.Command
