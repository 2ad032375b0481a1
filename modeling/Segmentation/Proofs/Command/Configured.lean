import Mathlib
import Segmentation.Proofs.Command.Membership

/-!
# Which configurations a run accepts

A configuration that could be read is loaded, refused for lack of an event file, or refused at the
first of its segments that repeats a name. `loading_checks_configuration` gives the result and the
whole log in each of these cases: the warnings stop where the check does. Whatever a run then prints
are reports with names of their own.
-/

set_option autoImplicit false

namespace Segmentation.Command

variable {host : Host} {files : FileReader} {arguments : Arguments} {path : String}
  {configuration : Configuration}

/-! ### Reports -/

/-- A run with a configuration that ends with an exit code of 0 shows the reports on a configuration
that it loaded, on events that it loaded. -/
theorem exists_reports_of_exitCode (hevent : arguments.event = none)
    (hconfig : arguments.config = some path) (hcode : (run host arguments files).exitCode = 0) :
    ∃ configuration events,
      (Load.configuration files path).run.value = .ok configuration ∧
      (Load.allEvents files (configuration.resolvedInputs (Path.parent path))).run.value =
        .ok events ∧
      render configuration (Report.ofSegments host.schedule configuration.settings events
        configuration.segments).value = some (run host arguments files).output := by
  have hclear : ¬Obstacle files arguments := by
    rcases exitCode_run_cases host arguments files with
      ⟨-, hclear, -⟩ | ⟨hfailed, -⟩ | ⟨-, hclear, -⟩
    · exact hclear
    · exact absurd (hcode.symm.trans hfailed) (by simp)
    · exact hclear
  obtain ⟨rendered, hrendered⟩ := (@exists_perform_iff host arguments files).mpr hclear
  rw [value_perform, hevent, hconfig] at hrendered
  obtain ⟨log, hrun⟩ := run_config hevent hconfig hrendered
  obtain ⟨configuration, events, hconfiguration, hevents, rfl⟩ :=
    value_reportSegments_eq_ok_iff.mp hrendered
  refine ⟨configuration, events, hconfiguration, hevents, ?_⟩
  cases hrender : render configuration (Report.ofSegments host.schedule configuration.settings
      events configuration.segments).value with
  | some output => rw [hrun, hrender, conclude]
  | none =>
    rw [hrun, hrender, conclude] at hcode
    exact absurd hcode (by simp)

/-! ### Loading -/

/-- A configuration that was read is loaded exactly if it lists an event file and no two of its
segments have the same name. Loading it then warns once about each filter with a condition that is
not supported, segment by segment and filter by filter. Without an event file it fails without a
warning. If a name is repeated, it fails at the first segment that has the name of an earlier one,
and has warned about the segments before that one. So the reports that a run with a configuration
prints have different names. -/
theorem loading_checks_configuration
    (hread : Load.configuration? files path = .ok configuration) :
    let loading := (Load.configuration files path).run
    let warning := fun (segment : Segment) (filter : Filter) ↦
      (⟨.warn, .configuration, "Segment '" ++ segment.name ++ "' uses unknown condition '" ++
        filter.condition.text ++ "'; that filter will always pass"⟩ : Log.Entry)
    let warnings := fun (segments : List Segment) ↦ segments.flatMap fun segment ↦
      ((segment.filters.getD []).filter fun filter ↦ filter.condition ∉ Condition.supported).map
        (warning segment)
    ((∃ loaded, loading.value = .ok loaded) ↔
      configuration.inputs ≠ [] ∧ (configuration.segments.map Segment.name).Nodup) ∧
    (configuration.inputs ≠ [] → (configuration.segments.map Segment.name).Nodup →
      loading = ⟨warnings configuration.segments, .ok configuration⟩) ∧
    (configuration.inputs = [] → ∃ failure, loading = ⟨[], .error failure⟩ ∧
      failure.causes = ["Invalid config file: " ++ Text.quoted path,
        "[input] files must list at least one event file"]) ∧
    (configuration.inputs ≠ [] → ¬(configuration.segments.map Segment.name).Nodup →
      ∃ before segment after, configuration.segments = before ++ segment :: after ∧
        (before.map Segment.name).Nodup ∧ segment.name ∈ before.map Segment.name ∧
        ∃ failure, loading = ⟨warnings before, .error failure⟩ ∧
          failure.causes = ["Invalid config file: " ++ Text.quoted path,
            "Duplicate segment name: " ++ segment.name]) ∧
    ∀ (host : Host) (arguments : Arguments), arguments.event = none →
      arguments.config = some path → (run host arguments files).exitCode = 0 →
        ∃ events, (Load.allEvents files
            (configuration.resolvedInputs (Path.parent path))).run.value = .ok events ∧
          let reports := (Report.ofSegments host.schedule configuration.settings events
            configuration.segments).value
          render configuration reports = some (run host arguments files).output ∧
            (reports.map (·.name)).Nodup := by
  intro loading warning warnings
  have hwarnings : ∀ segments, segments.flatMap Configuration.segmentWarnings =
      warnings segments := fun segments ↦
    List.flatMap_congr fun segment _ ↦ Configuration.segmentWarnings_eq segment
  have hloading := Load.run_configuration hread
  have hloaded : (∃ loaded, loading.value = .ok loaded) ↔
      configuration.inputs ≠ [] ∧ (configuration.segments.map Segment.name).Nodup := by
    rw [← configuration.value_check_eq_ok_iff]
    simp only [loading, Load.value_configuration_eq_ok_iff, hread, Except.ok.injEq, exists_eq_left']
  refine ⟨hloaded, ?success, ?noInputs, ?repeatedName, ?reports⟩
  case success =>
    intro hinputs hnames
    rw [Configuration.check_of_nodup hinputs hnames, hwarnings] at hloading
    exact hloading
  case noInputs =>
    intro hinputs
    rw [Configuration.check_of_noInputs hinputs] at hloading
    exact ⟨_, hloading, rfl⟩
  case repeatedName =>
    intro hinputs hnames
    obtain ⟨before, segment, after, hsegments, hfront, hrepeats⟩ :=
      Configuration.exists_repeatedName configuration.segments hnames
    rw [Configuration.check_of_repeatedName hinputs hsegments hfront hrepeats, hwarnings]
      at hloading
    exact ⟨before, segment, after, hsegments, hfront, hrepeats, _, hloading, rfl⟩
  case reports =>
    intro host arguments hevent hconfig hcode
    obtain ⟨loaded, events, hconfiguration, hevents, houtput⟩ :=
      exists_reports_of_exitCode hevent hconfig hcode
    obtain ⟨hsame, -⟩ := Load.value_configuration_eq_ok_iff.mp hconfiguration
    obtain rfl := Except.ok.inj (hread.symm.trans hsame)
    obtain ⟨-, hnames⟩ := hloaded.mp ⟨configuration, hconfiguration⟩
    refine ⟨events, hevents, houtput, ?_⟩
    rw [Report.map_name_ofSegments]
    exact hnames

/-- Of three segments the last one has the name of the first one. Loading the configuration warns
about the filter of the second one, and does not come to that of the last one. -/
theorem loading_checks_configuration_repeated : ∃ (files : FileReader)
    (configuration : Configuration) (failure : Failure),
    Load.configuration? files "c.toml" = .ok configuration ∧
    configuration.segments = [⟨"a", none⟩, ⟨"b", some [Filter.ofTexts "p" "near" ""]⟩,
      ⟨"a", some [Filter.ofTexts "p" "far" ""]⟩] ∧
    (Load.configuration files "c.toml").run =
      ⟨[⟨.warn, .configuration,
        "Segment 'b' uses unknown condition 'near'; that filter will always pass"⟩],
        .error failure⟩ ∧
    failure.causes = ["Invalid config file: \"c.toml\"", "Duplicate segment name: a"] := by
  let files : FileReader := fun _ ↦
    .ok ("input.files=['e']\n" ++
      "segments=[\x7bname='a'\x7d,\x7bname='b',filters=[\x7bpropertyName='p'," ++
      "condition='near',propertyValue=''\x7d]\x7d,\x7bname='a',filters=[\x7b" ++
      "propertyName='p',condition='far',propertyValue=''\x7d]\x7d]")
  have hparts : (Load.configuration? files "c.toml").toOption.any (fun configuration ↦
      !configuration.inputs.isEmpty && configuration.segments ==
        [⟨"a", none⟩, ⟨"b", some [Filter.ofTexts "p" "near" ""]⟩,
          ⟨"a", some [Filter.ofTexts "p" "far" ""]⟩]) = true := by
    decide +kernel
  obtain ⟨configuration, hread, hparts⟩ := Json.any_toOption.mp hparts
  simp only [Bool.and_eq_true, beq_iff_eq, Bool.not_eq_true', List.isEmpty_eq_false_iff] at hparts
  obtain ⟨hinputs, hsegments⟩ := hparts
  obtain ⟨-, -, -, hrepeated, -⟩ := loading_checks_configuration hread
  obtain ⟨before, segment, after, hsplit, -, hmem, failure, hloading, hcauses⟩ :=
    hrepeated hinputs (by rw [hsegments]; decide)
  refine ⟨files, configuration, failure, hread, hsegments, ?_⟩
  rw [hsegments] at hsplit
  -- Only behind two segments is there one that repeats a name.
  rcases before with _ | ⟨first, _ | ⟨second, _ | ⟨third, rest⟩⟩⟩
  · exact absurd hmem List.not_mem_nil
  · simp only [List.cons_append, List.nil_append, List.cons.injEq] at hsplit
    obtain ⟨rfl, rfl, -⟩ := hsplit
    exact absurd hmem (by decide)
  · simp only [List.cons_append, List.nil_append, List.cons.injEq] at hsplit
    obtain ⟨rfl, rfl, rfl, -⟩ := hsplit
    exact ⟨hloading, hcauses⟩
  · simp at hsplit

end Segmentation.Command
