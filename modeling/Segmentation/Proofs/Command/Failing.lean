import Mathlib
import Segmentation.Proofs.Command.Conduct
import Segmentation.Proofs.Command.Loading
import Segmentation.Proofs.Configuration.Plain
import Segmentation.Proofs.Report.Columns

/-!
# Runs that fail

`Obstacle` lists what can stand in the way of a run, in terms of its arguments and of the files that
they lead to. Only the mode that the arguments select counts: what a configuration says does not
matter beside an event file. `exists_perform_iff` shows that a run fails exactly if it meets an
obstacle. Without one it still breaks off if it has to write a table with too long a name, which is
`TooWide`. Together with the steps of the run, this is `failing_run_writes_nothing`: the exit code
tells these ends apart, and a run that is not finished has written nothing, however much was in
order before.
-/

set_option autoImplicit false

namespace Segmentation.Command

open Attempt (exists_value_bind_iff value_bind_eq_ok_iff)
open Load (Unusable HoldsFilters HoldsConfiguration not_unusable_iff)
open EventFile (HoldsEvents)

variable {host : Host} {arguments : Arguments} {files : FileReader} {path : String}
  {configuration : Configuration} {events : List Event}

/-! ### Obstacles -/

/-- The run reads this configuration from the file at a path. -/
structure Configures (files : FileReader) (arguments : Arguments) (path : String)
    (configuration : Configuration) : Prop where
  event : arguments.event = none
  config : arguments.config = some path
  read : ∃ text, files path = .ok text ∧ Configuration.read text = some configuration

/-- A run reads one configuration. -/
theorem Configures.eq {other : Configuration} (h : Configures files arguments path configuration)
    (hother : Configures files arguments path other) : configuration = other := by
  obtain ⟨text, htext, hread⟩ := h.read
  obtain ⟨text', htext', hread'⟩ := hother.read
  obtain rfl := Except.ok.inj (htext.symm.trans htext')
  exact Option.some.inj (hread.symm.trans hread')

/-- What stands in the way of a run. -/
inductive Obstacle (files : FileReader) (arguments : Arguments) : Prop
  /-- The event file is unusable. -/
  | events {path : String} (hevent : arguments.event = some path)
    (hfile : Unusable files HoldsEvents path)
  /-- The filter file is unusable. -/
  | filters {path list : String} (hevent : arguments.event = some path)
    (hfilters : arguments.filters = some list) (hfile : Unusable files HoldsFilters list)
  /-- The configuration file is unusable. -/
  | configuration {path : String} (hevent : arguments.event = none)
    (hconfig : arguments.config = some path) (hfile : Unusable files HoldsConfiguration path)
  /-- The configuration lists no event file. -/
  | noInputs {path : String} {configuration : Configuration}
    (hread : Configures files arguments path configuration) (hinputs : configuration.inputs = [])
  /-- Two segments of the configuration have one name. -/
  | repeatedName {path : String} {configuration : Configuration}
    (hread : Configures files arguments path configuration)
    (hnames : ¬(configuration.segments.map Segment.name).Nodup)
  /-- An event file that the configuration lists is unusable. -/
  | listedEvents {path input : String} {configuration : Configuration}
    (hread : Configures files arguments path configuration)
    (hinput : input ∈ configuration.resolvedInputs (Path.parent path))
    (hfile : Unusable files HoldsEvents input)

/-- The run has to write a table with a name of more than 65535 bytes. -/
inductive TooWide (files : FileReader) (arguments : Arguments) : Prop
  | intro {path : String} {configuration : Configuration} {segment : Segment}
    (hread : Configures files arguments path configuration)
    (hformat : configuration.format = .text) (hsegment : segment ∈ configuration.segments)
    (hsize : 65535 < segment.name.utf8ByteSize)

/-! ### Runs without obstacles -/

theorem exists_loadFilters_iff {named : Option String} :
    (∃ filters, (loadFilters files named).run.value = .ok filters) ↔
      ∀ list, named = some list → ¬Unusable files HoldsFilters list := by
  cases named with
  | none => exact ⟨fun _ list hlist ↦ absurd hlist (by simp), fun _ ↦ ⟨none, rfl⟩⟩
  | some list =>
    constructor
    · rintro h other ⟨⟩
      obtain ⟨filters, hfilters, -⟩ := exists_value_bind_iff.mp h
      exact Load.exists_filters_iff.mp ⟨filters, hfilters⟩
    · intro h
      obtain ⟨filters, hfilters⟩ := Load.exists_filters_iff.mpr (h list rfl)
      exact exists_value_bind_iff.mpr ⟨filters, hfilters, _, rfl⟩

theorem exists_matchEvents_iff :
    (∃ output, (matchEvents arguments files path).run.value = .ok output) ↔
      ¬Unusable files HoldsEvents path ∧
        ∀ list, arguments.filters = some list → ¬Unusable files HoldsFilters list := by
  rw [← Load.exists_events_iff, ← exists_loadFilters_iff]
  constructor
  · intro h
    obtain ⟨events, hevents, h⟩ := exists_value_bind_iff.mp h
    obtain ⟨filters, hfilters, -⟩ := exists_value_bind_iff.mp h
    exact ⟨⟨events, hevents⟩, filters, hfilters⟩
  · rintro ⟨⟨events, hevents⟩, filters, hfilters⟩
    refine exists_value_bind_iff.mpr ⟨events, hevents, ?_⟩
    exact exists_value_bind_iff.mpr ⟨filters, hfilters, _, rfl⟩

/-- A run with a configuration renders the reports on its segments. -/
theorem value_reportSegments
    (hconfiguration : (Load.configuration files path).run.value = .ok configuration)
    (hevents : (Load.allEvents files
      (configuration.resolvedInputs (Path.parent path))).run.value = .ok events) :
    (reportSegments host files path).run.value = .ok (render configuration
      (Report.ofSegments host.schedule configuration.settings events
        configuration.segments).value) := by
  unfold reportSegments
  rw [Attempt.value_bind rfl, Attempt.value_bind hconfiguration, Attempt.value_bind rfl,
    Attempt.value_bind hevents]
  rfl

/-- It does not fail if the configuration and the event files that it lists can be loaded. -/
theorem value_reportSegments_eq_ok_iff {rendered : Option String} :
    (reportSegments host files path).run.value = .ok rendered ↔ ∃ configuration events,
      (Load.configuration files path).run.value = .ok configuration ∧
      (Load.allEvents files (configuration.resolvedInputs (Path.parent path))).run.value =
        .ok events ∧
      rendered = render configuration (Report.ofSegments host.schedule configuration.settings
        events configuration.segments).value := by
  constructor
  · intro h
    obtain ⟨-, -, hrest⟩ := value_bind_eq_ok_iff.mp h
    obtain ⟨configuration, hconfiguration, hrest⟩ := value_bind_eq_ok_iff.mp hrest
    obtain ⟨-, -, hrest⟩ := value_bind_eq_ok_iff.mp hrest
    obtain ⟨events, hevents, -⟩ := value_bind_eq_ok_iff.mp hrest
    have hshown := @value_reportSegments host files path configuration events hconfiguration hevents
    exact ⟨configuration, events, hconfiguration, hevents, Except.ok.inj (h.symm.trans hshown)⟩
  · rintro ⟨configuration, events, hconfiguration, hevents, rfl⟩
    exact value_reportSegments hconfiguration hevents

theorem exists_reportSegments_iff :
    (∃ rendered, (reportSegments host files path).run.value = .ok rendered) ↔ ∃ configuration,
      (∃ text, files path = .ok text ∧ Configuration.read text = some configuration) ∧
      configuration.inputs ≠ [] ∧ (configuration.segments.map Segment.name).Nodup ∧
      ∀ input ∈ configuration.resolvedInputs (Path.parent path),
        ¬Unusable files HoldsEvents input := by
  simp only [← Load.exists_allEvents_iff, ← Load.configuration?_eq_ok_iff,
    value_reportSegments_eq_ok_iff, Load.value_configuration_eq_ok_iff,
    Configuration.value_check_eq_ok_iff]
  constructor
  · rintro ⟨rendered, configuration, events, ⟨hread, hinputs, hnames⟩, hevents, -⟩
    exact ⟨configuration, hread, hinputs, hnames, events, hevents⟩
  · rintro ⟨configuration, hread, hinputs, hnames, events, hevents⟩
    exact ⟨_, configuration, events, ⟨hread, hinputs, hnames⟩, hevents, rfl⟩

/-- The first lines of the log cannot fail. -/
theorem value_perform : (perform host arguments files).run.value =
    (match arguments.event, arguments.config with
      | some path, _ => do return some (← matchEvents arguments files path)
      | none, some path => reportSegments host files path
      | none, none => return some hint : Attempt (Option String)).run.value :=
  (Attempt.value_bind rfl).trans (Attempt.value_bind rfl)

/-- Verdicts can always be written. -/
theorem value_matches_eq_ok_iff {rendered : Option String} :
    (do return some (← matchEvents arguments files path) :
        Attempt (Option String)).run.value = .ok rendered ↔
      ∃ output, (matchEvents arguments files path).run.value = .ok output ∧
        some output = rendered := by
  rw [value_bind_eq_ok_iff]
  refine exists_congr fun output ↦ and_congr_right fun _ ↦ ?_
  exact ⟨fun h ↦ Except.ok.inj h, fun h ↦ congrArg Except.ok h⟩

/-- Reports cannot be written if they are to be a table and one of the names is too long. -/
theorem render_ofSegments_eq_none_iff :
    render configuration (Report.ofSegments host.schedule configuration.settings events
        configuration.segments).value = none ↔
      configuration.format = .text ∧
        ∃ segment ∈ configuration.segments, 65535 < segment.name.utf8ByteSize := by
  have hlong : (∃ report ∈ (Report.ofSegments host.schedule configuration.settings events
        configuration.segments).value, 65535 < report.name.utf8ByteSize) ↔
      ∃ segment ∈ configuration.segments, 65535 < segment.name.utf8ByteSize := by
    rw [Report.value_ofSegments]
    simp only [List.mem_map, exists_exists_and_eq_and]
    rfl
  unfold render
  cases configuration.format with
  | text => simp only [Report.table_eq_none_iff, hlong, true_and]
  | json => simp

/-! ### One mode at a time -/

/-- Beside an event file the configuration does not matter. -/
theorem obstacle_iff_of_event (hevent : arguments.event = some path) :
    Obstacle files arguments ↔ Unusable files HoldsEvents path ∨
      ∃ list, arguments.filters = some list ∧ Unusable files HoldsFilters list := by
  constructor
  · rintro (⟨hpath, hfile⟩ | ⟨-, hlist, hfile⟩ | ⟨hnone⟩ | ⟨⟨hnone⟩⟩ | ⟨⟨hnone⟩⟩ | ⟨⟨hnone⟩⟩)
    · obtain rfl := Option.some.inj (hevent.symm.trans hpath)
      exact Or.inl hfile
    · exact Or.inr ⟨_, hlist, hfile⟩
    all_goals exact absurd (hevent.symm.trans hnone) (by simp)
  · rintro (hfile | ⟨list, hlist, hfile⟩)
    · exact .events hevent hfile
    · exact .filters hevent hlist hfile

/-- Without an event file the configuration and the event files that it lists matter. -/
theorem obstacle_iff_of_config (hevent : arguments.event = none)
    (hconfig : arguments.config = some path) :
    Obstacle files arguments ↔ Unusable files HoldsConfiguration path ∨
      ∃ configuration, Configures files arguments path configuration ∧
        (configuration.inputs = [] ∨ ¬(configuration.segments.map Segment.name).Nodup ∨
          ∃ input ∈ configuration.resolvedInputs (Path.parent path),
            Unusable files HoldsEvents input) := by
  have hpath : ∀ {other}, arguments.config = some other → other = path := fun h ↦
    Option.some.inj (h.symm.trans hconfig)
  constructor
  · rintro (⟨hsome⟩ | ⟨hsome⟩ | ⟨-, h, hfile⟩ | ⟨hread, hinputs⟩ | ⟨hread, hnames⟩ |
      ⟨hread, hinput, hfile⟩)
    · exact absurd (hevent.symm.trans hsome) (by simp)
    · exact absurd (hevent.symm.trans hsome) (by simp)
    · exact Or.inl (hpath h ▸ hfile)
    · exact Or.inr ⟨_, hpath hread.config ▸ hread, Or.inl hinputs⟩
    · exact Or.inr ⟨_, hpath hread.config ▸ hread, Or.inr (Or.inl hnames)⟩
    · obtain rfl := hpath hread.config
      exact Or.inr ⟨_, hread, Or.inr (Or.inr ⟨_, hinput, hfile⟩)⟩
  · rintro (hfile | ⟨configuration, hread, hinputs | hnames | ⟨input, hinput, hfile⟩⟩)
    · exact .configuration hevent hconfig hfile
    · exact .noInputs hread hinputs
    · exact .repeatedName hread hnames
    · exact .listedEvents hread hinput hfile

theorem not_obstacle_of_none (hevent : arguments.event = none) (hconfig : arguments.config = none) :
    ¬Obstacle files arguments := by
  rintro (⟨hsome⟩ | ⟨hsome⟩ | ⟨-, hsome⟩ | ⟨⟨-, hsome⟩⟩ | ⟨⟨-, hsome⟩⟩ | ⟨⟨-, hsome⟩⟩)
  · exact absurd (hevent.symm.trans hsome) (by simp)
  · exact absurd (hevent.symm.trans hsome) (by simp)
  all_goals exact absurd (hconfig.symm.trans hsome) (by simp)

/-- A run fails exactly if something stands in its way. -/
theorem exists_perform_iff :
    (∃ rendered, (perform host arguments files).run.value = .ok rendered) ↔
      ¬Obstacle files arguments := by
  rw [value_perform]
  cases hevent : arguments.event with
  | some path =>
    simp only [value_matches_eq_ok_iff]
    rw [exists_comm]
    simp only [exists_and_left, exists_eq', and_true]
    rw [exists_matchEvents_iff, obstacle_iff_of_event hevent]
    simp only [not_or, not_exists, not_and]
  | none =>
    cases hconfig : arguments.config with
    | none => exact ⟨fun _ ↦ not_obstacle_of_none hevent hconfig, fun _ ↦ ⟨some hint, rfl⟩⟩
    | some path =>
      rw [exists_reportSegments_iff, obstacle_iff_of_config hevent hconfig, not_or,
        not_unusable_iff]
      simp only [not_exists, not_and, not_or, not_not]
      constructor
      · rintro ⟨configuration, ⟨text, htext, hread⟩, hinputs, hnames, hfiles⟩
        refine ⟨⟨text, htext, configuration, hread⟩, fun other hother ↦ ?_⟩
        obtain rfl := hother.eq ⟨hevent, hconfig, text, htext, hread⟩
        exact ⟨hinputs, hnames, hfiles⟩
      · rintro ⟨⟨text, htext, configuration, hread⟩, hall⟩
        exact ⟨configuration, ⟨text, htext, hread⟩,
          hall configuration ⟨hevent, hconfig, text, htext, hread⟩⟩

/-- A run breaks off if nothing stands in its way and the table that it has to write is too wide. -/
theorem value_perform_eq_none_iff : (perform host arguments files).run.value = .ok none ↔
    ¬Obstacle files arguments ∧ TooWide files arguments := by
  constructor
  · intro h
    refine ⟨exists_perform_iff.mp ⟨none, h⟩, ?_⟩
    rw [value_perform] at h
    cases hevent : arguments.event with
    | some path =>
      simp only [hevent, value_matches_eq_ok_iff] at h
      obtain ⟨output, -, hnone⟩ := h
      exact absurd hnone (by simp)
    | none =>
      cases hconfig : arguments.config with
      | none =>
        simp only [hevent, hconfig] at h
        exact absurd (Except.ok.inj h) (by simp)
      | some path =>
        simp only [hevent, hconfig] at h
        obtain ⟨configuration, events, hconfiguration, -, hnone⟩ :=
          value_reportSegments_eq_ok_iff.mp h
        obtain ⟨hread, -⟩ := Load.value_configuration_eq_ok_iff.mp hconfiguration
        obtain ⟨hformat, segment, hsegment, hsize⟩ := render_ofSegments_eq_none_iff.mp hnone.symm
        exact .intro ⟨hevent, hconfig, Load.configuration?_eq_ok_iff.mp hread⟩ hformat hsegment
          hsize
  · rintro ⟨hclear, ⟨hread, hformat, hsegment, hsize⟩⟩
    obtain ⟨rendered, hrendered⟩ := (@exists_perform_iff host arguments files).mpr hclear
    have hvalue := hrendered
    rw [value_perform, hread.event, hread.config] at hvalue
    obtain ⟨loaded, events, hconfiguration, -, rfl⟩ := value_reportSegments_eq_ok_iff.mp hvalue
    obtain ⟨hloaded, -⟩ := Load.value_configuration_eq_ok_iff.mp hconfiguration
    obtain rfl := hread.eq ⟨hread.event, hread.config, Load.configuration?_eq_ok_iff.mp hloaded⟩
    rw [hrendered, render_ofSegments_eq_none_iff.mpr ⟨hformat, _, hsegment, hsize⟩]

/-! ### Exit codes -/

theorem exitCode_run : (run host arguments files).exitCode =
    match (perform host arguments files).run.value with
    | .ok (some _) => 0
    | .ok none => 101
    | .error _ => 1 := by
  rw [run]
  rcases (perform host arguments files).run.value with failure | ⟨_ | output⟩ <;> rfl

/-- A run is finished, fails, or breaks off. -/
theorem exitCode_run_cases (host : Host) (arguments : Arguments) (files : FileReader) :
    (run host arguments files).exitCode = 0 ∧ ¬Obstacle files arguments ∧
        ¬TooWide files arguments ∨
      (run host arguments files).exitCode = 1 ∧ Obstacle files arguments ∨
      (run host arguments files).exitCode = 101 ∧ ¬Obstacle files arguments ∧
        TooWide files arguments := by
  have hobstacle := @exists_perform_iff host arguments files
  have hnone := @value_perform_eq_none_iff host arguments files
  rw [exitCode_run]
  cases hvalue : (perform host arguments files).run.value with
  | ok rendered =>
    have hclear := hobstacle.mp ⟨rendered, hvalue⟩
    cases rendered with
    | some output =>
      refine Or.inl ⟨rfl, hclear, fun hwide ↦ ?_⟩
      have hbroken := hnone.mpr ⟨hclear, hwide⟩
      exact absurd (hvalue.symm.trans hbroken) (by simp)
    | none => exact Or.inr (Or.inr ⟨rfl, hnone.mp hvalue⟩)
  | error failure =>
    refine Or.inr (Or.inl ⟨rfl, not_not.mp fun h ↦ ?_⟩)
    obtain ⟨rendered, hrendered⟩ := hobstacle.mpr h
    exact absurd (hrendered.symm.trans hvalue) (by simp)

/-- A run with an exit code other than 0 did nothing but log. -/
theorem not_mem_actions_of_exitCode (h : (run host arguments files).exitCode ≠ 0) (text : String) :
    Action.write text ∉ (conduct host arguments files).run.actions := by
  refine not_mem_actions_of_not_finished (fun hvalue ↦ h ?_) text
  rw [run_eq_response, response, hvalue]

/-- A run without a write has no output. -/
theorem output_response_of_not_mem {conduct : Conduct Ending}
    (h : ∀ text, Action.write text ∉ conduct.run.actions) (level : Log.Level) :
    (response host level conduct).output = "" := by
  have hnone : conduct.run.actions.filterMap Action.text? = [] := by
    refine List.filterMap_eq_nil_iff.mpr fun action haction ↦ ?_
    cases action with
    | log entry => rfl
    | write text => exact absurd haction (h text)
  unfold response
  simp only [hnone]
  split <;> rfl

/-- A run with one event file and one segment breaks off if the name of the segment is too long. -/
theorem breaksOff_of_oneSegment {file name : String} (hevent : arguments.event = none)
    (hconfig : arguments.config = some path)
    (htext : files path = .ok (Configuration.oneSegmentText file name))
    (hfile : Toml.IsPlain file.toList) (hname : Toml.IsPlain name.toList)
    (hevents : ¬Unusable files HoldsEvents (Path.join (Path.parent path) file))
    (hsize : 65535 < name.utf8ByteSize) :
    ¬Obstacle files arguments ∧ (run host arguments files).exitCode = 101 := by
  have hread := Configuration.read_oneSegmentText hfile hname
  have hconfigures : Configures files arguments path _ := ⟨hevent, hconfig, _, htext, hread⟩
  have hwide : TooWide files arguments :=
    .intro hconfigures rfl (List.mem_singleton_self _) hsize
  have hclear : ¬Obstacle files arguments := by
    rw [obstacle_iff_of_config hevent hconfig, not_or, not_unusable_iff]
    refine ⟨⟨_, htext, _, hread⟩, ?_⟩
    rintro ⟨configuration, hother, hproblem⟩
    obtain rfl := hother.eq hconfigures
    rcases hproblem with hinputs | hnames | ⟨input, hinput, hunusable⟩
    · exact absurd hinputs (List.cons_ne_nil _ _)
    · exact hnames (List.nodup_singleton _)
    · obtain rfl := List.mem_singleton.mp hinput
      exact hevents hunusable
  rcases exitCode_run_cases host arguments files with ⟨-, -, hnarrow⟩ | ⟨-, hsome⟩ | ⟨hcode, -⟩
  · exact absurd hwide hnarrow
  · exact absurd hsome hclear
  · exact ⟨hclear, hcode⟩

/-- A failing run leaves no partial answer. With arguments that can be read the command ends with an
exit code of 0, 1 or 101: of 1 exactly if something stands in the way of the mode that they select,
and of 101 exactly if nothing does and there is a table to write with a name of more than 65535
bytes. Unless it ends with 0 it has no output: the run, which leaves behind what its steps do, does
nothing but log on its way. All this holds of every host. -/
theorem failing_run_writes_nothing {words : List String} {request : Request}
    (h : readArguments words = .ok request) (host : Host) (files : FileReader) :
    ((execute host words files).exitCode = 0 ∨ (execute host words files).exitCode = 1 ∨
      (execute host words files).exitCode = 101) ∧
    ((execute host words files).exitCode = 1 ↔
      ∃ arguments, request = .run arguments ∧ Obstacle files arguments) ∧
    ((execute host words files).exitCode = 101 ↔
      ∃ arguments, request = .run arguments ∧ ¬Obstacle files arguments ∧
        TooWide files arguments) ∧
    ((execute host words files).exitCode ≠ 0 → (execute host words files).output = "") ∧
    ∀ arguments, request = .run arguments →
      execute host words files =
        response host arguments.level (conduct host arguments files) ∧
      ((execute host words files).exitCode ≠ 0 →
        ∀ text, Action.write text ∉ (conduct host arguments files).run.actions) := by
  unfold execute
  rw [h]
  cases request with
  | version => simp
  | help => simp
  | run arguments =>
    simp only [Request.run.injEq, exists_eq_left', forall_eq']
    have hwrites := @not_mem_actions_of_exitCode host arguments files
    have hcases := exitCode_run_cases host arguments files
    refine ⟨?_, ?_, ?_, fun hcode ↦ ?_, run_eq_response host arguments files, hwrites⟩
    · exact hcases.imp And.left (Or.imp And.left And.left)
    · rcases hcases with ⟨hcode, hnone, -⟩ | ⟨hcode, hsome⟩ | ⟨hcode, hnone, -⟩
      · simp [hcode, hnone]
      · simp [hcode, hsome]
      · simp [hcode, hnone]
    · rcases hcases with ⟨hcode, -, hnarrow⟩ | ⟨hcode, hsome⟩ | ⟨hcode, hnone, hwide⟩
      · simp [hcode, hnarrow]
      · simp [hcode, hsome]
      · simp [hcode, hnone, hwide]
    · rw [run_eq_response]
      exact output_response_of_not_mem (hwrites hcode) arguments.level

/-- Two event files, of which only the last line of the second one is no event. -/
theorem failing_run_writes_nothing_lastLine : ∃ files : FileReader,
    files "c.toml" = .ok "[input]\nfiles = [\"a.json\", \"b.jsonl\"]\n" ∧
    files "a.json" = .ok "\x7b\"a\":1\x7d" ∧
    files "b.jsonl" = .ok "\x7b\"a\":2\x7d\n[3]\n" ∧
    (execute ⟨1, .inTurn⟩ ["--config", "c.toml"] files).exitCode = 1 ∧
    (execute ⟨1, .inTurn⟩ ["--config", "c.toml"] files).output = "" ∧
    Obstacle files { config := some "c.toml" } := by
  let files : FileReader := fun path ↦
    if path = "c.toml" then .ok "[input]\nfiles = [\"a.json\", \"b.jsonl\"]\n"
    else if path = "a.json" then .ok "\x7b\"a\":1\x7d"
    else .ok "\x7b\"a\":2\x7d\n[3]\n"
  have hread : readArguments ["--config", "c.toml"] =
      .ok (.run { config := some "c.toml" }) := by decide +kernel
  have hcode : (execute ⟨1, .inTurn⟩ ["--config", "c.toml"] files).exitCode = 1 := by
    decide +kernel
  obtain ⟨-, hobstacle, -, houtput, -⟩ := failing_run_writes_nothing hread ⟨1, .inTurn⟩ files
  obtain ⟨arguments, hrequest, h⟩ := hobstacle.mp hcode
  obtain rfl := Request.run.inj hrequest
  exact ⟨files, rfl, rfl, rfl, hcode, houtput (by rw [hcode]; decide), h⟩

/-- One event, and one segment with a name of 65536 letters. Nothing stands in the way of the run,
and it ends with an exit code of 101. -/
theorem exitCode_execute_longName :
    let files : FileReader := fun path ↦
      if path = "c.toml" then
        .ok (Configuration.oneSegmentText "e.jsonl" (String.ofList (List.replicate 65536 'a')))
      else .ok "\x7b\"plan\":\"pro\"\x7d\n"
    let arguments : Arguments := { config := some "c.toml", quiet := true }
    readArguments ["--config", "c.toml", "-q"] = .ok (.run arguments) ∧
    ¬Obstacle files arguments ∧
    ∀ host : Host, (execute host ["--config", "c.toml", "-q"] files).exitCode = 101 := by
  intro files arguments
  have hread : readArguments ["--config", "c.toml", "-q"] = .ok (.run arguments) := by
    decide +kernel
  have hevents : ¬Unusable files HoldsEvents (Path.join (Path.parent "c.toml") "e.jsonl") := by
    have hloaded : (EventFile.read "\x7b\"plan\":\"pro\"\x7d\n").toOption.any (·.length == 1) := by
      decide +kernel
    obtain ⟨events, hread, -⟩ := Json.any_toOption.mp hloaded
    have hpath : Path.join (Path.parent "c.toml") "e.jsonl" = "e.jsonl" := by decide +kernel
    rw [hpath]
    exact not_unusable_iff.mpr ⟨_, rfl, (EventFile.exists_events_iff _).mp ⟨events, hread⟩⟩
  have hfile : Toml.IsPlain "e.jsonl".toList := by
    constructor <;> simp [Toml.isInline]
  have hname : Toml.IsPlain (String.ofList (List.replicate 65536 'a')).toList := by
    rw [String.toList_ofList]
    refine ⟨List.ne_nil_of_length_pos (by rw [List.length_replicate]; decide), fun c hc ↦ ?_⟩
    obtain rfl := List.eq_of_mem_replicate hc
    decide
  have hsize := Text.le_utf8ByteSize_replicate 65536 'a'
  have hrun : ∀ host : Host,
      ¬Obstacle files arguments ∧ (run host arguments files).exitCode = 101 := fun host ↦
    breaksOff_of_oneSegment rfl rfl rfl hfile hname hevents hsize
  refine ⟨hread, (hrun ⟨1, .inTurn⟩).1, fun host ↦ ?_⟩
  unfold execute
  rw [hread]
  exact (hrun host).2

end Segmentation.Command
