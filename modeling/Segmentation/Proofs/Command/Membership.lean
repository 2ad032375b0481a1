import Mathlib
import Segmentation.Proofs.Command.Failing
import Segmentation.Proofs.Report.Members
import Segmentation.Proofs.Verdict.Agreement

/-!
# The modes of the command decide membership alike

The command holds events against filters in three ways: it states a verdict for each event, states
it with the outcomes of all filters, or reports the members of segments. Each way is a walk of its
own along the events. `value_eventsLines` describes the walk of the first two in terms of
`Settings.passes`, as `Report.value_ofSegments` does for the third, and `modes_decide_alike`
compares whole runs: they name the same events, under the same positions, and count them alike.
-/

set_option autoImplicit false

namespace Segmentation.Command

open Attempt (Yields yields_pure yields_ofLogged yields_log yields_of_value)

variable {host : Host} {files : FileReader} {arguments : Arguments} {path : String}
  {events : List Event} {filters : Option (List Filter)}

/-! ### Verdicts on events -/

theorem passed_judge_eq_passes (settings : Settings) (event : Event)
    (filters : Option (List Filter)) :
    (settings.judge event filters).value.passed = settings.passes event filters :=
  (settings.passed_judge event filters).trans (settings.value_evaluate event filters).symm

/-- The lines about an event: its verdict, and with it the outcomes if they are asked for. -/
def verdictLines (arguments : Arguments) (filters : Option (List Filter)) (index : ℕ)
    (event : Event) : List String :=
  eventLine index (arguments.settings.passes event filters) ::
    if arguments.explain then
      (arguments.settings.judge event filters).value.outcomes.map outcomeLine
    else []

theorem value_eventLines (arguments : Arguments) (filters : Option (List Filter)) (index : ℕ)
    (event : Event) : (eventLines arguments filters index event).value =
      (arguments.settings.passes event filters, verdictLines arguments filters index event) := by
  unfold eventLines verdictLines
  cases arguments.explain with
  | false => rfl
  | true =>
    simp only [if_true, Logged.value_bind, Logged.value_pure, passed_judge_eq_passes]

/-- The walk along the events states the verdict on each in its order, and counts those that
pass. -/
theorem value_eventsLines (arguments : Arguments) (filters : Option (List Filter)) (start : ℕ)
    (events : List Event) : (eventsLines arguments filters start events).value =
      (events.countP fun event ↦ arguments.settings.passes event filters,
        (events.mapIdx fun i event ↦
          verdictLines arguments filters (start + i) event).flatten) := by
  induction events generalizing start with
  | nil => rfl
  | cons event rest ih =>
    have hshift : (fun i event ↦ verdictLines arguments filters (start + 1 + i) event) =
        fun i event ↦ verdictLines arguments filters (start + (i + 1)) event := by
      funext i event
      rw [Nat.add_assoc, Nat.add_comm 1]
    simp only [eventsLines, Logged.value_bind, Logged.value_pure, value_eventLines, ih, hshift,
      List.mapIdx_cons, List.flatten_cons, List.countP_cons, Nat.add_zero]
    cases arguments.settings.passes event filters <;> rfl

/-! ### Runs -/

/-- The line that counts the events that match. -/
def matchedEntry (matched total : ℕ) : Log.Entry :=
  ⟨.info, .command, toString matched ++ " of " ++ toString total ++ " event(s) matched"⟩

/-- A run with one filter list ends its log with the number of events that match. -/
theorem yields_matchEvents (arguments : Arguments)
    (hevents : (Load.events files path).run.value = .ok events)
    (hfilters : (loadFilters files arguments.filters).run.value = .ok filters) :
    ∃ log, Yields (matchEvents arguments files path)
      (log ++ [matchedEntry (events.findIdxs fun event ↦
        arguments.settings.passes event filters).length events.length])
      (unlines (events.mapIdx (verdictLines arguments filters)).flatten) := by
  have hwalk := value_eventsLines arguments filters 0 events
  simp only [Nat.zero_add] at hwalk
  have hlines := yields_ofLogged (eventsLines arguments filters 0 events)
  rw [hwalk] at hlines
  refine ⟨(Load.events files path).run.entries ++
    ((loadFilters files arguments.filters).run.entries ++
      (eventsLines arguments filters 0 events).entries), ?_⟩
  rw [List.append_assoc, List.append_assoc, List.length_findIdxs]
  refine (yields_of_value hevents).bind ((yields_of_value hfilters).bind (hlines.bind ?_))
  exact (yields_log .info .command _).bind (yields_pure _)

/-- Files with the same text hold the same events. -/
theorem value_events_congr {other : String} (hsame : files other = files path)
    (hevents : (Load.events files path).run.value = .ok events) :
    (Load.events files other).run.value = .ok events := by
  rw [Load.value_events, Load.events?_eq_ok_iff] at hevents ⊢
  rwa [hsame]

theorem value_allEvents_singleton (hevents : (Load.events files path).run.value = .ok events) :
    (Load.allEvents files [path]).run.value = .ok events := by
  rw [Load.allEvents, Attempt.value_bind hevents, Load.allEvents]
  exact congrArg Except.ok (List.append_nil events)

/-- The first lines of every log. -/
def banner : List Log.Entry :=
  [⟨.info, .command, "Segment Filter CLI v" ++ version⟩,
    ⟨.debug, .command, "Using segment-filter library v" ++ version⟩]

theorem run_of_yields {log : List Log.Entry} {rendered : Option String}
    (h : Yields (perform host arguments files) log rendered) :
    run host arguments files =
      conclude host (logText arguments.level log) (.ok rendered) := by
  rw [run, h]

theorem run_event {log : List Log.Entry} {output : String} (hpath : arguments.event = some path)
    (h : Yields (matchEvents arguments files path) log output) :
    run host arguments files = ⟨0, output, logText arguments.level (banner ++ log)⟩ := by
  have hyields : Yields (perform host arguments files) (banner ++ (log ++ [])) (some output) := by
    unfold perform
    rw [hpath]
    exact (yields_log .info .command _).bind
      ((yields_log .debug .command _).bind (h.bind (yields_pure _)))
  rw [run_of_yields hyields, List.append_nil, conclude]

/-- A run with a configuration shows what it renders, or breaks off. -/
theorem run_config {rendered : Option String} (hevent : arguments.event = none)
    (hconfig : arguments.config = some path)
    (h : (reportSegments host files path).run.value = .ok rendered) :
    ∃ log, run host arguments files =
      conclude host (logText arguments.level log) (.ok rendered) := by
  refine ⟨banner ++ (reportSegments host files path).run.entries, run_of_yields ?_⟩
  unfold perform
  rw [hevent, hconfig]
  exact (yields_log .info .command _).bind
    ((yields_log .debug .command _).bind (yields_of_value h))

/-! ### The modes side by side -/

/-- The verdict on the event at a position is positive if the position is one of an event that
passes. -/
theorem eventLine_eq (passes : Event → Bool) {i : ℕ} (hi : i < events.length) :
    eventLine i (passes events[i]) = eventLine i (decide (i ∈ events.findIdxs passes)) := by
  congr 1
  rw [Bool.eq_iff_iff, decide_eq_true_iff, List.mem_findIdxs_iff_pos_getElem hi]

/-- Without the outcomes there is one line for each event. -/
theorem flatten_verdictLines (harguments : arguments.explain = false) :
    (events.mapIdx (verdictLines arguments filters)).flatten =
      (List.range events.length).map fun i ↦ eventLine i (decide (i ∈ events.findIdxs fun event ↦
        arguments.settings.passes event filters)) := by
  have hsingle : verdictLines arguments filters =
      fun i event ↦ [eventLine i (arguments.settings.passes event filters)] := by
    funext i event
    rw [verdictLines, harguments]
    rfl
  have hlines : (events.mapIdx (verdictLines arguments filters)).flatten =
      events.mapIdx fun i event ↦ eventLine i (arguments.settings.passes event filters) := by
    rw [hsingle, List.mapIdx_eq_zipIdx_map, List.mapIdx_eq_zipIdx_map, ← List.flatMap_def,
      ← List.map_eq_flatMap]
  rw [hlines]
  refine List.ext_getElem (by simp) fun i hi _ ↦ ?_
  rw [List.length_mapIdx] at hi
  rw [List.getElem_mapIdx, List.getElem_map, List.getElem_range]
  exact eventLine_eq (fun event ↦ arguments.settings.passes event filters) hi

/-- With the outcomes each event has the same line, and the lines of its outcomes below it. -/
theorem mapIdx_verdictLines (harguments : arguments.explain = true) :
    events.mapIdx (verdictLines arguments filters) = events.mapIdx fun i event ↦
      eventLine i (decide (i ∈ events.findIdxs fun event ↦
        arguments.settings.passes event filters)) ::
          (arguments.settings.judge event filters).value.outcomes.map outcomeLine := by
  refine List.mapIdx_eq_mapIdx_iff.mpr fun i hi ↦ ?_
  rw [verdictLines, harguments, if_pos rfl]
  congr 1
  exact eventLine_eq (fun event ↦ arguments.settings.passes event filters) hi

/-- The modes of the command decide membership alike. Let an event file and a filter list be loaded,
or no filter list be named, and let `matching` be the positions of the events that the list selects.
The run without outcomes states for each position in turn whether it is one of these, the run with
outcomes states the same above the outcomes of each event, and both end their logs with the number
of these positions. A run with a configuration that reads the same event file, with the settings of
the other runs, reports these positions and their number for every segment with the same list,
whatever the schedule. It shows its reports if they can be written, and else breaks off. -/
theorem modes_decide_alike (host : Host) (hpath : arguments.event = some path)
    (hevents : (Load.events files path).run.value = .ok events)
    (hfilters : (loadFilters files arguments.filters).run.value = .ok filters) :
    let matching := events.findIdxs fun event ↦ arguments.settings.passes event filters
    let verdict := fun i ↦ eventLine i (decide (i ∈ matching))
    let summary := matchedEntry matching.length events.length
    (∃ log, run host { arguments with explain := false } files =
      ⟨0, unlines ((List.range events.length).map verdict),
        logText arguments.level (log ++ [summary])⟩) ∧
    (∃ log, run host { arguments with explain := true } files =
      ⟨0, unlines (events.mapIdx fun i event ↦ verdict i ::
          (arguments.settings.judge event filters).value.outcomes.map outcomeLine).flatten,
        logText arguments.level (log ++ [summary])⟩) ∧
    ∀ (request : Arguments) (configPath eventPath : String) (configuration : Configuration),
      request.event = none → request.config = some configPath →
      (Load.configuration files configPath).run.value = .ok configuration →
      configuration.resolvedInputs (Path.parent configPath) = [eventPath] →
      files eventPath = files path →
      configuration.settings = { Settings.default with nestedPaths := !arguments.flat } →
      let reports := (Report.ofSegments host.schedule configuration.settings events
        configuration.segments).value
      (∀ output, render configuration reports = some output →
        ∃ log, run host request files = ⟨0, output, logText request.level log⟩) ∧
      (render configuration reports = none → ∃ log, run host request files =
        ⟨101, "", logText request.level log ++ brokenOffText host.mainThread⟩) ∧
      ∀ (i : ℕ) (segment : Segment), configuration.segments[i]? = some segment →
        segment.filters = filters →
        reports[i]? = some ⟨segment.name, events.length, matching.length, matching⟩ := by
  intro matching verdict summary
  refine ⟨?_, ?_, ?_⟩
  · obtain ⟨log, hlog⟩ := yields_matchEvents { arguments with explain := false } hevents hfilters
    rw [flatten_verdictLines rfl] at hlog
    refine ⟨banner ++ log, ?_⟩
    rw [List.append_assoc]
    exact run_event hpath hlog
  · obtain ⟨log, hlog⟩ := yields_matchEvents { arguments with explain := true } hevents hfilters
    rw [mapIdx_verdictLines rfl] at hlog
    refine ⟨banner ++ log, ?_⟩
    rw [List.append_assoc]
    exact run_event hpath hlog
  · intro request configPath eventPath configuration hevent hconfig hconfiguration hinputs hsame
      hsettings reports
    have hall : (Load.allEvents files
        (configuration.resolvedInputs (Path.parent configPath))).run.value = .ok events := by
      rw [hinputs]
      exact value_allEvents_singleton (value_events_congr hsame hevents)
    have hvalue : (reportSegments host files configPath).run.value =
        .ok (render configuration reports) := value_reportSegments hconfiguration hall
    obtain ⟨log, hrun⟩ := run_config hevent hconfig hvalue
    refine ⟨fun output houtput ↦ ⟨log, ?_⟩, fun hnone ↦ ⟨log, ?_⟩,
      fun i segment hsegment hlist ↦ ?_⟩
    · rw [hrun, houtput, conclude]
    · rw [hrun, hnone, conclude]
    · have hreports : reports = configuration.segments.map
          (Report.onSegment configuration.settings events) :=
        Report.value_ofSegments configuration.settings events host.schedule configuration.segments
      rw [hreports, List.getElem?_map, hsegment, Option.map_some, Report.onSegment,
        Report.membersOf, hlist, hsettings]
      rfl

/-- An event file of three lines, a filter list of one filter, and a configuration of one segment
with the same filter. -/
def threeEvents : FileReader := fun path ↦
  if path = "events.jsonl" then
    .ok "\x7b\"u\":\x7b\"a\":\"y\"\x7d\x7d\n\x7b\"u\":\x7b\"a\":\"x\"\x7d\x7d\n\x7b\"b\":1\x7d"
  else if path = "filters.json" then
    .ok "[\x7b\"propertyName\":\"u.a\",\"condition\":\"is\",\"propertyValue\":\"x\"\x7d]"
  else if path = "config.toml" then
    .ok ("[input]\nfiles = [\"events.jsonl\"]\n[[segments]]\nname = \"s\"\n" ++
      "[[segments.filters]]\npropertyName = \"u.a\"\ncondition = \"is\"\npropertyValue = \"x\"\n")
  else .error .notFound

/-- Of the three events the second one is selected in every mode. -/
theorem modes_decide_alike_three :
    let host : Host := ⟨1, .inTurn⟩
    let arguments : Arguments := { event := some "events.jsonl", filters := some "filters.json" }
    ∃ events configuration,
      (Load.events threeEvents "events.jsonl").run.value = .ok events ∧
      (Load.configuration threeEvents "config.toml").run.value = .ok configuration ∧
      (∃ log, run host arguments threeEvents =
        ⟨0, "event #0: no match\nevent #1: match\nevent #2: no match\n",
          logText .info (log ++ [matchedEntry 1 3])⟩) ∧
      (∃ log, run host { arguments with explain := true } threeEvents =
        ⟨0, "event #0: no match\n  [ ] u.a is: not matched\nevent #1: match\n" ++
            "  [x] u.a is: matched\nevent #2: no match\n  [ ] u.a is: missing property\n",
          logText .info (log ++ [matchedEntry 1 3])⟩) ∧
      let reports := (Report.ofSegments host.schedule configuration.settings events
        configuration.segments).value
      (∃ output log, render configuration reports = some output ∧
        run host { config := some "config.toml" } threeEvents = ⟨0, output, logText .info log⟩) ∧
      reports[0]? = some ⟨"s", 3, 1, [1]⟩ := by
  intro host arguments
  have hevents : ((Load.events threeEvents "events.jsonl").run.value).toOption.any (fun events ↦
      events.length == 3 && (events.findIdxs fun event ↦ arguments.settings.passes event
        (some [Filter.ofTexts "u.a" "is" "x"])) == [1] &&
      unlines (events.mapIdx fun i event ↦ eventLine i (decide (i ∈ [1])) ::
        (arguments.settings.judge event (some [Filter.ofTexts "u.a" "is" "x"])).value.outcomes.map
          outcomeLine).flatten ==
        "event #0: no match\n  [ ] u.a is: not matched\nevent #1: match\n" ++
          "  [x] u.a is: matched\nevent #2: no match\n  [ ] u.a is: missing property\n") =
      true := by
    decide +kernel
  have hfilters : ((loadFilters threeEvents (some "filters.json")).run.value).toOption.any
      (fun filters ↦ filters == some [Filter.ofTexts "u.a" "is" "x"]) = true := by
    decide +kernel
  have hconfiguration : ((Load.configuration threeEvents "config.toml").run.value).toOption.any
      (fun configuration ↦
        configuration.segments == [⟨"s", some [Filter.ofTexts "u.a" "is" "x"]⟩] &&
        configuration.resolvedInputs (Path.parent "config.toml") == ["events.jsonl"] &&
        configuration.settings == Settings.default) = true := by
    decide +kernel
  obtain ⟨events, hevents, htest⟩ := Json.any_toOption.mp hevents
  obtain ⟨filters, hfilters, hlist⟩ := Json.any_toOption.mp hfilters
  obtain ⟨configuration, hconfiguration, hparts⟩ := Json.any_toOption.mp hconfiguration
  simp only [Bool.and_eq_true, beq_iff_eq] at htest hlist hparts
  obtain ⟨⟨hlength, hmatching⟩, hlines⟩ := htest
  obtain ⟨⟨hsegments, hinputs⟩, hsettings⟩ := hparts
  obtain ⟨hplain, hexplained, hreports⟩ := modes_decide_alike host
    (show arguments.event = _ from rfl) hevents hfilters
  obtain ⟨hreport, -, hmembers⟩ := hreports { config := some "config.toml" } "config.toml"
    "events.jsonl" configuration rfl rfl hconfiguration hinputs rfl hsettings
  have hmember := hmembers 0 ⟨"s", some [Filter.ofTexts "u.a" "is" "x"]⟩
    (by rw [hsegments]; rfl) hlist.symm
  rw [hlist] at hplain hexplained hmember
  rw [hmatching, hlength] at hplain hexplained hmember
  rw [hlines] at hexplained
  have hshown : render configuration (Report.ofSegments host.schedule configuration.settings events
      configuration.segments).value ≠ none := by
    rw [ne_eq, render_ofSegments_eq_none_iff, hsegments]
    rintro ⟨-, segment, hsegment, hsize⟩
    rw [List.mem_singleton.mp hsegment] at hsize
    exact absurd hsize (by decide)
  obtain ⟨output, houtput⟩ := Option.ne_none_iff_exists'.mp hshown
  obtain ⟨log, hrun⟩ := hreport output houtput
  exact ⟨events, configuration, hevents, hconfiguration, hplain, hexplained,
    ⟨output, log, houtput, hrun⟩, hmember⟩

end Segmentation.Command
