/-!
The arguments of the command. Options with a file take it attached to their short name, after an
equals sign, or as the next argument; short options without one can be bundled. An option may be
given once, except for the one that raises the verbosity. Asking for the version or for help ends
the reading at once.
-/

set_option autoImplicit false

namespace Segmentation.Command

/-- What a run is asked to do. -/
structure Arguments where
  event : Option String := none
  filters : Option String := none
  config : Option String := none
  /-- Whether every outcome is shown. -/
  explain : Bool := false
  /-- Whether property names are plain names and never paths. -/
  flat : Bool := false
  /-- How often more of the log was asked for. -/
  verbose : Nat := 0
  /-- Whether only errors are logged. -/
  quiet : Bool := false
  deriving DecidableEq

/-- What the arguments ask for. -/
inductive Request where
  | run (arguments : Arguments)
  | version
  | help
  deriving DecidableEq

/-- The options that take a file. -/
inductive FileOption where
  | event
  | filters
  | config
  deriving DecidableEq

def FileOption.usage : FileOption → String
  | .event => "--event <FILE>"
  | .filters => "--filters <FILE>"
  | .config => "--config <FILE>"

/-- The options that stand by themselves. -/
inductive Switch where
  | explain
  | flat
  | verbose
  | quiet
  | version
  | help
  deriving DecidableEq

def Switch.usage : Switch → String
  | .explain => "--explain"
  | .flat => "--flat"
  | .verbose => "--verbose..."
  | .quiet => "--quiet"
  | .version => "--version"
  | .help => "--help"

/-- What is wrong with the arguments. -/
inductive UsageError where
  | unexpectedArgument (argument : String)
  | unexpectedValue (switch : Switch) (value : String)
  | missingValue (option : FileOption)
  | repeated (usage : String)
  deriving DecidableEq

def UsageError.message : UsageError → String
  | .unexpectedArgument argument => "unexpected argument '" ++ argument ++ "' found"
  | .unexpectedValue switch value =>
    "unexpected value '" ++ value ++ "' for '" ++ switch.usage ++ "' found; no more were expected"
  | .missingValue option =>
    "a value is required for '" ++ option.usage ++ "' but none was supplied"
  | .repeated usage => "the argument '" ++ usage ++ "' cannot be used multiple times"

/-- An option, which may still need a value. -/
inductive CommandOption where
  | file (option : FileOption)
  | switch (switch : Switch)

def longOption? (name : String) : Option CommandOption :=
  if name = "event" then some (.file .event)
  else if name = "filters" then some (.file .filters)
  else if name = "config" then some (.file .config)
  else if name = "explain" then some (.switch .explain)
  else if name = "flat" then some (.switch .flat)
  else if name = "verbose" then some (.switch .verbose)
  else if name = "quiet" then some (.switch .quiet)
  else if name = "version" then some (.switch .version)
  else if name = "help" then some (.switch .help)
  else none

def shortOption? (name : Char) : Option CommandOption :=
  if name = 'e' then some (.file .event)
  else if name = 'f' then some (.file .filters)
  else if name = 'c' then some (.file .config)
  else if name = 'v' then some (.switch .verbose)
  else if name = 'q' then some (.switch .quiet)
  else if name = 'V' then some (.switch .version)
  else if name = 'h' then some (.switch .help)
  else none

/-- A file set for an option. -/
def Arguments.setFile (arguments : Arguments) (option : FileOption) (path : String) :
    Except UsageError Arguments :=
  let taken := match option with
    | .event => arguments.event
    | .filters => arguments.filters
    | .config => arguments.config
  if path.isEmpty then .error (.missingValue option)
  else if taken.isSome then .error (.repeated option.usage)
  else match option with
    | .event => .ok { arguments with event := some path }
    | .filters => .ok { arguments with filters := some path }
    | .config => .ok { arguments with config := some path }

/-- The largest count of verbosity that is kept. -/
def verboseMax : Nat := 255

/-- A switch turned on, or the request that it makes at once. -/
def Arguments.turnOn (arguments : Arguments) (switch : Switch) :
    Except UsageError (Request ⊕ Arguments) :=
  match switch with
  | .explain =>
    if arguments.explain then .error (.repeated switch.usage)
    else .ok (.inr { arguments with explain := true })
  | .flat =>
    if arguments.flat then .error (.repeated switch.usage)
    else .ok (.inr { arguments with flat := true })
  | .quiet =>
    if arguments.quiet then .error (.repeated switch.usage)
    else .ok (.inr { arguments with quiet := true })
  | .verbose => .ok (.inr { arguments with verbose := min verboseMax (arguments.verbose + 1) })
  | .version => .ok (.inl .version)
  | .help => .ok (.inl .help)

/-- How far one argument brings the reading: to a request, to new settings, or to an option whose
file has to follow. -/
inductive Progress where
  | done (request : Request)
  | more (arguments : Arguments)
  | needsFile (arguments : Arguments) (option : FileOption)

/-- The value attached to a short option, without an equals sign in front. -/
def attached : List Char → String
  | '=' :: value => String.ofList value
  | value => String.ofList value

/-- A bundle of short options. The first one that takes a file takes the rest of the bundle. -/
def readBundle (arguments : Arguments) : List Char → Except UsageError Progress
  | [] => .ok (.more arguments)
  | c :: rest =>
    match shortOption? c with
    | none => .error (.unexpectedArgument (String.ofList ['-', c]))
    | some (.file option) =>
      if rest.isEmpty then .ok (.needsFile arguments option)
      else (arguments.setFile option (attached rest)).map .more
    | some (.switch switch) => do
      match ← arguments.turnOn switch with
      | .inl request => .ok (.done request)
      | .inr arguments => readBundle arguments rest

/-- A long option, with its value after an equals sign if there is one. -/
def readLong (arguments : Arguments) (body : List Char) : Except UsageError Progress :=
  let name := String.ofList (body.takeWhile (· != '='))
  let value := (body.dropWhile (· != '=')).tail?.map String.ofList
  match longOption? name, value with
  | none, _ => .error (.unexpectedArgument ("--" ++ name))
  | some (.file option), none => .ok (.needsFile arguments option)
  | some (.file option), some path => (arguments.setFile option path).map .more
  | some (.switch switch), some value => .error (.unexpectedValue switch value)
  | some (.switch switch), none => do
    match ← arguments.turnOn switch with
    | .inl request => .ok (.done request)
    | .inr arguments => .ok (.more arguments)

/-- One argument. A dash alone names no option. -/
def readArgument (arguments : Arguments) (argument : String) : Except UsageError Progress :=
  match argument.toList with
  | '-' :: '-' :: c :: rest => readLong arguments (c :: rest)
  | '-' :: c :: rest =>
    if c = '-' then .error (.unexpectedArgument argument) else readBundle arguments (c :: rest)
  | _ => .error (.unexpectedArgument argument)

/-- Whether an argument can be the file of the option before it. -/
def isValue (argument : String) : Bool :=
  match argument.toList with
  | '-' :: _ :: _ => false
  | _ => true

/-- The remaining arguments. Two dashes end the options, and nothing may follow them. -/
def readFrom (arguments : Arguments) : List String → Except UsageError Request
  | [] => .ok (.run arguments)
  | "--" :: [] => .ok (.run arguments)
  | "--" :: extra :: _ => .error (.unexpectedArgument extra)
  | argument :: rest => do
    match ← readArgument arguments argument with
    | .done request => .ok request
    | .more arguments => readFrom arguments rest
    | .needsFile arguments option =>
      match rest with
      | [] => .error (.missingValue option)
      | path :: rest =>
        if isValue path then do readFrom (← arguments.setFile option path) rest
        else .error (.missingValue option)

/-- What the arguments of a command ask for. -/
def readArguments (arguments : List String) : Except UsageError Request := readFrom {} arguments

end Segmentation.Command
