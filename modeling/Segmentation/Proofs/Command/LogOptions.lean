import Mathlib
import Segmentation.Command.Arguments

/-!
# Command lines without options for the log

The options `-v` and `-q` say how much of the log is shown. `muted` takes them out of a command
line, also where they are bundled with other short options. The reading goes through the arguments
one by one, and each that is accepted leads to the same progress with and without these options,
whatever was asked of the log before (`readArgument_muted`). So does a whole command line
(`readFrom_muted`): the request is the same but for the two fields for the log.

In the other direction any number of these options can be put in front of what is left of an
accepted command line (`readArguments_logOptions`).
-/

set_option autoImplicit false

namespace Segmentation.Command

/-! ### Command lines without options for the log -/

/-- The switches that say how much of the log is shown. -/
def Switch.isLogging (switch : Switch) : Bool := switch = .verbose || switch = .quiet

/-- A bundle of short options without those for the log. What follows an option with a file belongs
to the file. -/
def mutedBundle : List Char → List Char
  | [] => []
  | c :: rest =>
    match shortOption? c with
    | some (.switch switch) => if switch.isLogging then mutedBundle rest else c :: mutedBundle rest
    | _ => c :: rest

/-- An argument without options for the log; `none` if nothing is left of it. -/
def mutedArgument (argument : String) : Option String :=
  if argument = "--verbose" ∨ argument = "--quiet" then none
  else match argument.toList with
    | '-' :: c :: rest =>
      if c = '-' then some argument
      else if mutedBundle (c :: rest) = [] then none
      else some (String.ofList ('-' :: mutedBundle (c :: rest)))
    | _ => some argument

/-- A command line without options for the log. -/
def muted (words : List String) : List String := words.filterMap mutedArgument

/-- The same arguments with something else asked of the log. -/
def Arguments.logged (arguments : Arguments) (verbose : ℕ) (quiet : Bool) : Arguments :=
  { arguments with verbose := verbose, quiet := quiet }

def Request.logged (request : Request) (verbose : ℕ) (quiet : Bool) : Request :=
  match request with
  | .run arguments => .run (arguments.logged verbose quiet)
  | .version => .version
  | .help => .help

def Progress.logged (progress : Progress) (verbose : ℕ) (quiet : Bool) : Progress :=
  match progress with
  | .done request => .done (request.logged verbose quiet)
  | .more arguments => .more (arguments.logged verbose quiet)
  | .needsFile arguments option => .needsFile (arguments.logged verbose quiet) option

/-! ### One argument -/

variable {arguments : Arguments} (verbose : ℕ) (quiet : Bool)

theorem setFile_logged (arguments : Arguments) (option : FileOption) (path : String) :
    (arguments.logged verbose quiet).setFile option path =
      (arguments.setFile option path).map (·.logged verbose quiet) := by
  obtain ⟨event, filters, config, _⟩ := arguments
  unfold Arguments.setFile
  by_cases hempty : path.isEmpty = true
  · simp only [if_pos hempty]
    rfl
  · simp only [if_neg hempty]
    cases option with
    | event => cases event <;> rfl
    | filters => cases filters <;> rfl
    | config => cases config <;> rfl

/-- The other switches are turned on whatever is asked of the log. -/
theorem turnOn_logged (arguments : Arguments) {switch : Switch} (h : switch.isLogging = false) :
    (arguments.logged verbose quiet).turnOn switch = (arguments.turnOn switch).map
      (Sum.map (·.logged verbose quiet) (·.logged verbose quiet)) := by
  obtain ⟨_, _, _, explain, flat, _⟩ := arguments
  cases switch with
  | explain => cases explain <;> rfl
  | flat => cases flat <;> rfl
  | verbose => exact absurd h (by decide)
  | quiet => exact absurd h (by decide)
  | version => rfl
  | help => rfl

/-- A switch for the log changes nothing else. -/
theorem turnOn_isLogging {switch : Switch} (h : switch.isLogging = true)
    {next : Request ⊕ Arguments} (hnext : arguments.turnOn switch = .ok next) :
    ∃ arguments', next = .inr arguments' ∧
      arguments'.logged verbose quiet = arguments.logged verbose quiet := by
  cases switch with
  | verbose =>
    obtain rfl := Except.ok.inj hnext
    exact ⟨_, rfl, rfl⟩
  | quiet =>
    unfold Arguments.turnOn at hnext
    simp only at hnext
    split at hnext
    · exact absurd hnext (by simp)
    · obtain rfl := Except.ok.inj hnext
      exact ⟨_, rfl, rfl⟩
  | explain => exact absurd h (by decide)
  | flat => exact absurd h (by decide)
  | version => exact absurd h (by decide)
  | help => exact absurd h (by decide)

theorem mutedBundle_file {c : Char} {option : FileOption}
    (h : shortOption? c = some (.file option)) (rest : List Char) :
    mutedBundle (c :: rest) = c :: rest := by
  simp only [mutedBundle, h]

theorem mutedBundle_switch {c : Char} {switch : Switch}
    (h : shortOption? c = some (.switch switch)) (rest : List Char) :
    mutedBundle (c :: rest) =
      if switch.isLogging then mutedBundle rest else c :: mutedBundle rest := by
  simp only [mutedBundle, h]

/-- An option with a file is read whatever is asked of the log. -/
theorem readBundle_file_logged {c : Char} {option : FileOption}
    (h : shortOption? c = some (.file option)) (rest : List Char) :
    readBundle (arguments.logged verbose quiet) (c :: rest) =
      (readBundle arguments (c :: rest)).map (·.logged verbose quiet) := by
  simp only [readBundle, h]
  split
  · rfl
  · rw [setFile_logged]
    cases arguments.setFile option (attached rest) <;> rfl

theorem readBundle_switch {c : Char} {switch : Switch} (h : shortOption? c = some (.switch switch))
    (rest : List Char) :
    readBundle arguments (c :: rest) = (arguments.turnOn switch).bind fun
      | .inl request => .ok (.done request)
      | .inr arguments => readBundle arguments rest := by
  rw [readBundle, h]
  rfl

/-- A bundle leads to the same progress without its options for the log. -/
theorem readBundle_muted {bundle : List Char} {progress : Progress}
    (h : readBundle arguments bundle = .ok progress) :
    readBundle (arguments.logged verbose quiet) (mutedBundle bundle) =
      .ok (progress.logged verbose quiet) := by
  induction bundle generalizing arguments with
  | nil =>
    obtain rfl := Except.ok.inj h
    rfl
  | cons c rest ih =>
    cases hoption : shortOption? c with
    | none => exact absurd h (by simp [readBundle, hoption])
    | some option =>
      cases option with
      | file option =>
        rw [mutedBundle_file hoption, readBundle_file_logged verbose quiet hoption, h]
        rfl
      | switch switch =>
        rw [readBundle_switch hoption] at h
        rw [mutedBundle_switch hoption]
        cases hnext : arguments.turnOn switch with
        | error error =>
          rw [hnext] at h
          exact absurd h (by simp [Except.bind])
        | ok next =>
          rw [hnext] at h
          by_cases hlogging : switch.isLogging = true
          · obtain ⟨arguments', rfl, hsame⟩ := turnOn_isLogging verbose quiet hlogging hnext
            rw [if_pos hlogging, ← hsame]
            exact ih h
          · rw [if_neg hlogging, readBundle_switch hoption,
              turnOn_logged _ _ _ (eq_false_of_ne_true hlogging), hnext]
            cases next with
            | inl request =>
              obtain rfl := Except.ok.inj h
              rfl
            | inr arguments' => exact ih h

/-- The switches for the log have these long names. -/
theorem name_of_isLogging {name : String} {switch : Switch} (hlogging : switch.isLogging = true)
    (h : longOption? name = some (.switch switch)) : name = "verbose" ∨ name = "quiet" := by
  unfold longOption? at h
  repeat' split at h
  all_goals simp only [Option.some.injEq, CommandOption.switch.injEq, reduceCtorEq] at h
  all_goals subst h
  · exact absurd hlogging (by decide)
  · exact absurd hlogging (by decide)
  · exact Or.inl ‹_›
  · exact Or.inr ‹_›
  · exact absurd hlogging (by decide)
  · exact absurd hlogging (by decide)

/-- Without a value a long option is its name. -/
theorem takeWhile_of_tail?_eq_none {body : List Char}
    (h : ((body.dropWhile (· != '=')).tail?.map String.ofList) = none) :
    body.takeWhile (· != '=') = body := by
  have hnil : body.dropWhile (· != '=') = [] := by
    cases hrest : body.dropWhile (· != '=') with
    | nil => rfl
    | cons c rest => simp [hrest] at h
  have hsplit := List.takeWhile_append_dropWhile (p := (· != '=')) (l := body)
  rwa [hnil, List.append_nil] at hsplit

/-- Another long option leads to the same progress, whatever is asked of the log. -/
theorem readLong_logged {body : List Char} (hverbose : body ≠ "verbose".toList)
    (hquiet : body ≠ "quiet".toList) :
    readLong (arguments.logged verbose quiet) body =
      (readLong arguments body).map (·.logged verbose quiet) := by
  unfold readLong
  simp only
  cases hoption : longOption? (String.ofList (body.takeWhile (· != '='))) with
  | none => rfl
  | some option =>
    cases option with
    | file option =>
      cases (body.dropWhile (· != '=')).tail?.map String.ofList with
      | none => rfl
      | some path =>
        simp only
        rw [setFile_logged]
        cases arguments.setFile option path <;> rfl
    | switch switch =>
      cases hvalue : (body.dropWhile (· != '=')).tail?.map String.ofList with
      | some value => rfl
      | none =>
        have hother : switch.isLogging = false := by
          rw [takeWhile_of_tail?_eq_none hvalue] at hoption
          refine eq_false_of_ne_true fun hlogging ↦ ?_
          rcases name_of_isLogging hlogging hoption with hname | hname
          · exact hverbose (by rw [← hname, String.toList_ofList])
          · exact hquiet (by rw [← hname, String.toList_ofList])
        simp only
        rw [turnOn_logged _ _ _ hother]
        cases arguments.turnOn switch with
        | error error => rfl
        | ok next => cases next <;> rfl

/-- Two dashes start a long option. -/
theorem readArgument_long {argument : String} {c : Char} {rest : List Char}
    (h : argument.toList = '-' :: '-' :: c :: rest) :
    readArgument arguments argument = readLong arguments (c :: rest) := by
  simp only [readArgument, h]

/-- One dash starts a bundle. -/
theorem readArgument_bundle {argument : String} {c : Char} {rest : List Char}
    (h : argument.toList = '-' :: c :: rest) (hc : c ≠ '-') :
    readArgument arguments argument = readBundle arguments (c :: rest) := by
  unfold readArgument
  split
  · rename_i heq
    rw [h] at heq
    exact absurd (List.cons.inj (List.cons.inj heq).2).1 hc
  · rename_i heq
    obtain ⟨rfl, rfl⟩ := List.cons.inj (List.cons.inj (h.symm.trans heq)).2
    rw [if_neg hc]
  · rename_i hother
    exact absurd h (hother c rest)

/-- What is accepted has one of the two forms. -/
theorem argument_cases {argument : String} {progress : Progress}
    (h : readArgument arguments argument = .ok progress) :
    (∃ c rest, argument.toList = '-' :: '-' :: c :: rest) ∨
      ∃ c rest, argument.toList = '-' :: c :: rest ∧ c ≠ '-' := by
  unfold readArgument at h
  split at h
  · rename_i c rest heq
    exact Or.inl ⟨c, rest, heq⟩
  · rename_i c rest _ heq
    split at h
    · exact absurd h (by simp)
    · rename_i hc
      exact Or.inr ⟨c, rest, heq, hc⟩
  · exact absurd h (by simp)

/-- The first option of an accepted bundle is no dash. -/
theorem ne_dash_of_readBundle {c : Char} {rest : List Char} {progress : Progress}
    (h : readBundle arguments (c :: rest) = .ok progress) : c ≠ '-' := by
  rintro rfl
  exact absurd h (by simp [readBundle, shortOption?])

/-- The long options for the log change nothing else. -/
theorem readArgument_log {argument : String} {progress : Progress}
    (hlong : argument = "--verbose" ∨ argument = "--quiet")
    (h : readArgument arguments argument = .ok progress) : ∃ arguments',
      progress = .more arguments' ∧
        arguments'.logged verbose quiet = arguments.logged verbose quiet := by
  obtain ⟨switch, hlogging, hread⟩ : ∃ switch : Switch, switch.isLogging = true ∧
      readArgument arguments argument = (arguments.turnOn switch).bind fun
        | .inl request => .ok (.done request)
        | .inr arguments => .ok (.more arguments) := by
    rcases hlong with rfl | rfl
    · exact ⟨.verbose, rfl, rfl⟩
    · exact ⟨.quiet, rfl, rfl⟩
  rw [hread] at h
  cases hnext : arguments.turnOn switch with
  | error error =>
    rw [hnext] at h
    exact absurd h (by simp [Except.bind])
  | ok next =>
    rw [hnext] at h
    obtain ⟨arguments', rfl, hsame⟩ := turnOn_isLogging verbose quiet hlogging hnext
    exact ⟨arguments', (Except.ok.inj h).symm, hsame⟩

theorem eq_more_of_logged {progress : Progress}
    (h : progress.logged verbose quiet = .more (arguments.logged verbose quiet)) :
    ∃ arguments', progress = .more arguments' ∧
      arguments'.logged verbose quiet = arguments.logged verbose quiet := by
  cases progress with
  | more arguments' => exact ⟨arguments', rfl, Progress.more.inj h⟩
  | done request => exact absurd h (by simp [Progress.logged])
  | needsFile arguments' option => exact absurd h (by simp [Progress.logged])

/-- An argument that is accepted leads to the same progress without its options for the log. If
nothing is left of it, it changed nothing else. -/
theorem readArgument_muted {argument : String} {progress : Progress}
    (h : readArgument arguments argument = .ok progress) :
    (mutedArgument argument = none ∧ ∃ arguments', progress = .more arguments' ∧
        arguments'.logged verbose quiet = arguments.logged verbose quiet) ∨
      ∃ word, mutedArgument argument = some word ∧
        readArgument (arguments.logged verbose quiet) word =
          .ok (progress.logged verbose quiet) := by
  by_cases hlong : argument = "--verbose" ∨ argument = "--quiet"
  · exact Or.inl ⟨if_pos hlong, readArgument_log verbose quiet hlong h⟩
  · rw [mutedArgument, if_neg hlong]
    rcases argument_cases h with ⟨c, rest, hword⟩ | ⟨c, rest, hword, hc⟩
    · have hother : ∀ name : List Char, argument ≠ String.ofList ('-' :: '-' :: name) →
          c :: rest ≠ name := by
        rintro name hne rfl
        exact hne (by rw [← hword, String.ofList_toList])
      rw [hword]
      rw [readArgument_long hword] at h
      refine Or.inr ⟨argument, rfl, ?_⟩
      rw [readArgument_long hword, readLong_logged verbose quiet
        (hother _ fun heq ↦ hlong (Or.inl heq)) (hother _ fun heq ↦ hlong (Or.inr heq)), h]
      rfl
    · rw [readArgument_bundle hword hc] at h
      have hmuted := readBundle_muted verbose quiet h
      rw [hword]
      simp only [if_neg hc]
      cases hbundle : mutedBundle (c :: rest) with
      | nil =>
        rw [hbundle] at hmuted
        exact Or.inl ⟨if_pos rfl, eq_more_of_logged verbose quiet (Except.ok.inj hmuted).symm⟩
      | cons d more =>
        rw [hbundle] at hmuted
        refine Or.inr ⟨_, if_neg (List.cons_ne_nil d more), ?_⟩
        rw [readArgument_bundle String.toList_ofList (ne_dash_of_readBundle hmuted), hmuted]

/-! ### Command lines -/

/-- An argument that can be a file is no option for the log. -/
theorem mutedArgument_of_isValue {argument : String} (h : isValue argument = true) :
    mutedArgument argument = some argument := by
  have hlong : ¬ (argument = "--verbose" ∨ argument = "--quiet") := by
    rintro (rfl | rfl) <;> exact absurd h (by decide)
  have hother : ∀ c rest, argument.toList ≠ '-' :: c :: rest := by
    intro c rest heq
    rw [isValue, heq] at h
    exact Bool.false_ne_true h
  rw [mutedArgument, if_neg hlong]
  clear h
  split
  · rename_i c rest heq
    exact absurd heq (hother c rest)
  · rfl

/-- The reading goes on with the progress that an argument makes. -/
theorem readFrom_cons {word : String} (hword : word ≠ "--") (rest : List String) :
    readFrom arguments (word :: rest) = (readArgument arguments word).bind fun
      | .done request => .ok request
      | .more arguments => readFrom arguments rest
      | .needsFile arguments option =>
        match rest with
        | [] => .error (.missingValue option)
        | path :: rest =>
          if isValue path then (arguments.setFile option path).bind (readFrom · rest)
          else .error (.missingValue option) := by
  rw [readFrom]
  · rfl
  · exact fun heq _ ↦ hword heq
  · exact fun _ _ heq _ ↦ hword heq

/-- A file is read for an option that needs one. -/
theorem needsFile_eq_ok_iff {option : FileOption} {path : String} {rest : List String}
    {request : Request} :
    (Except.ok (Progress.needsFile arguments option) : Except UsageError Progress).bind (fun
      | .done request => .ok request
      | .more arguments => readFrom arguments (path :: rest)
      | .needsFile arguments option =>
        if isValue path then (arguments.setFile option path).bind (readFrom · rest)
        else .error (.missingValue option)) = .ok request ↔
      isValue path = true ∧ ∃ arguments', arguments.setFile option path = .ok arguments' ∧
        readFrom arguments' rest = .ok request := by
  simp only [Except.bind]
  by_cases hvalue : isValue path = true
  · rw [if_pos hvalue]
    cases arguments.setFile option path <;> simp [hvalue]
  · rw [if_neg hvalue]
    simp [hvalue]

/-- Two dashes are accepted at the end only. -/
theorem readFrom_dashes {rest : List String} {request : Request}
    (h : readFrom arguments ("--" :: rest) = .ok request) :
    rest = [] ∧ request = .run arguments := by
  cases rest with
  | nil => exact ⟨rfl, (Except.ok.inj h).symm⟩
  | cons extra more => exact absurd h (by simp [readFrom])

/-- Two dashes name no option. -/
theorem ne_dashes_of_readArgument {word : String} {progress : Progress}
    (h : readArgument arguments word = .ok progress) : word ≠ "--" := by
  rintro rfl
  exact absurd h (by simp [readArgument])

/-- An accepted command line is accepted without its options for the log, whatever was asked of the
log before, and asks for the same. -/
theorem readFrom_muted : ∀ {words : List String} {arguments : Arguments} {request : Request},
    readFrom arguments words = .ok request →
      readFrom (arguments.logged verbose quiet) (muted words) =
        .ok (request.logged verbose quiet)
  | [], arguments, request, h => by
    obtain rfl := Except.ok.inj h
    rfl
  | word :: rest, arguments, request, h => by
    by_cases hdashes : word = "--"
    · subst hdashes
      obtain ⟨rfl, rfl⟩ := readFrom_dashes h
      rfl
    · rw [readFrom_cons hdashes] at h
      cases hprogress : readArgument arguments word with
      | error error =>
        rw [hprogress] at h
        exact absurd h (by simp [Except.bind])
      | ok progress =>
        rw [hprogress] at h
        rcases readArgument_muted verbose quiet hprogress with
          ⟨hword, arguments', rfl, hsame⟩ | ⟨word', hword, hmuted⟩
        · rw [muted, List.filterMap_cons_none hword, ← hsame]
          exact readFrom_muted h
        · rw [muted, List.filterMap_cons_some hword,
            readFrom_cons (ne_dashes_of_readArgument hmuted), hmuted]
          cases progress with
          | done request' =>
            obtain rfl := Except.ok.inj h
            rfl
          | more arguments' => exact readFrom_muted h
          | needsFile arguments' option =>
            cases rest with
            | nil => exact absurd h (by simp [Except.bind])
            | cons path rest =>
              rw [needsFile_eq_ok_iff] at h
              obtain ⟨hvalue, arguments'', hfile, hrest⟩ := h
              rw [List.filterMap_cons_some (mutedArgument_of_isValue hvalue)]
              refine needsFile_eq_ok_iff.mpr ⟨hvalue, arguments''.logged verbose quiet, ?_, ?_⟩
              · rw [setFile_logged, hfile]
                rfl
              · exact readFrom_muted hrest

/-- Options that ask for a number of steps more of the log, and for errors only. -/
def logOptions (verbose : ℕ) (quiet : Bool) : List String :=
  List.replicate verbose "-v" ++ if quiet then ["-q"] else []

theorem readFrom_verbose (arguments : Arguments) (words : List String) :
    readFrom arguments ("-v" :: words) =
      readFrom (arguments.logged (min verboseMax (arguments.verbose + 1)) arguments.quiet) words :=
  readFrom_cons (by decide) words

theorem readFrom_quiet {arguments : Arguments} (h : arguments.quiet = false)
    (words : List String) :
    readFrom arguments ("-q" :: words) =
      readFrom (arguments.logged arguments.verbose true) words := by
  rw [readFrom_cons (by decide)]
  have hread : readArgument arguments "-q" =
      .ok (.more (arguments.logged arguments.verbose true)) := by
    obtain ⟨_, _, _, _, _, _, quiet⟩ := arguments
    obtain rfl : quiet = false := h
    rfl
  rw [hread]
  rfl

/-- The options for the log are read into the two fields for the log. -/
theorem readFrom_logOptions (arguments : Arguments) (hbound : arguments.verbose ≤ verboseMax)
    (hquiet : arguments.quiet = false) (words : List String) :
    readFrom arguments (logOptions verbose quiet ++ words) =
      readFrom (arguments.logged (min verboseMax (arguments.verbose + verbose)) quiet) words := by
  induction verbose generalizing arguments with
  | zero =>
    rw [Nat.add_zero, Nat.min_eq_right hbound]
    cases quiet with
    | false =>
      obtain ⟨_, _, _, _, _, _, _⟩ := arguments
      obtain rfl := hquiet
      rfl
    | true => exact readFrom_quiet hquiet words
  | succ verbose ih =>
    have hmore : logOptions (verbose + 1) quiet ++ words =
        "-v" :: (logOptions verbose quiet ++ words) := by
      simp [logOptions, List.replicate_succ]
    rw [hmore, readFrom_verbose, ih (arguments.logged _ _) (Nat.min_le_left _ _) hquiet]
    have hcount : min verboseMax (min verboseMax (arguments.verbose + 1) + verbose) =
        min verboseMax (arguments.verbose + (verbose + 1)) := by omega
    simp only [Arguments.logged, hcount]

/-- Any number of options for the log can be added to an accepted command line. -/
theorem readArguments_logOptions {words : List String} {request : Request}
    (h : readArguments words = .ok request) :
    readArguments (logOptions verbose quiet ++ muted words) =
      .ok (request.logged (min verboseMax verbose) quiet) := by
  rw [readArguments, readFrom_logOptions verbose quiet {} (Nat.zero_le _) rfl, Nat.zero_add]
  exact readFrom_muted (min verboseMax verbose) quiet h

/-- The two requests differ at most in what they ask of the log. -/
def Request.SameButLog (request request' : Request) : Prop :=
  request.logged 0 false = request'.logged 0 false

theorem sameButLog_logged (request : Request) :
    request.SameButLog (request.logged verbose quiet) := by
  cases request <;> rfl

/-- Command lines that are alike without options for the log ask for the same but for the log. -/
theorem sameButLog_of_muted_eq {words words' : List String} {request request' : Request}
    (h : readArguments words = .ok request) (h' : readArguments words' = .ok request')
    (hsame : muted words = muted words') : request.SameButLog request' := by
  have hread := readFrom_muted 0 false h
  rw [hsame, readFrom_muted 0 false h'] at hread
  exact (Except.ok.inj hread).symm

end Segmentation.Command
