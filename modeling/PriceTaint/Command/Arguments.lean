/-
The command line.

Options come in the usual two spellings: `--input X` or `--input=X`, and `-i X`,
`-iX` or `-i=X`; short flags can be joined as in `-vi X`. A value that starts with
a dash is not taken for a value, an option can be given once, and a path is never
empty. Arguments are read from left to right and the first thing that is wrong, or
that asks for help or for the version, decides.
-/

set_option autoImplicit false

namespace PriceTaint

/-! ## What can be asked for -/

/-- Which detectors run. -/
inductive DetectorChoice where
  | high
  | info
  | all
deriving DecidableEq, Repr

/-- How a scan is printed. -/
inductive OutputFormat where
  | console
  | json
  | markdown
deriving DecidableEq, Repr

/-- The arguments of a scan. -/
structure ScanOptions where
  input : String
  detector : DetectorChoice := .all
  format : OutputFormat := .console
  config : Option String := none
  verbose : Bool := false
deriving DecidableEq, Repr

/-- A command with its arguments. -/
inductive Invocation where
  | scanRun (options : ScanOptions)
  | scanList
  | validate (input : String) (verbose : Bool)
deriving DecidableEq, Repr

/-- Why no command is run. -/
inductive Stop where
  /-- The arguments are wrong. -/
  | usage
  | help
  | version
deriving DecidableEq, Repr

namespace Arguments

/-! ## Options -/

/-- The options of all commands. -/
inductive Switch where
  | input
  | config
  | detector
  | format
  | verbose
  | help
deriving DecidableEq, Repr

namespace Switch

/-- The option with the given long name. -/
def ofLong? : String → Option Switch
  | "input" => some .input
  | "config" => some .config
  | "detector" => some .detector
  | "format" => some .format
  | "verbose" => some .verbose
  | "help" => some .help
  | _ => none

/-- The option with the given letter. -/
def ofLetter? : Char → Option Switch
  | 'i' => some .input
  | 'c' => some .config
  | 'v' => some .verbose
  | 'h' => some .help
  | _ => none

/-- Does the option come with a value? -/
def takesValue : Switch → Bool
  | .verbose => false
  | .help => false
  | _ => true

end Switch

/-- The options given so far. -/
structure Given where
  input : Option String := none
  config : Option String := none
  detector : Option DetectorChoice := none
  format : Option OutputFormat := none
  verbose : Bool := false
deriving DecidableEq, Repr

/-- Takes a path that has not been given before. -/
def path? (earlier : Option String) (value : String) : Option String :=
  if earlier.isNone && !value.isEmpty then some value else none

/-- The detectors by name. -/
def detector? : String → Option DetectorChoice
  | "high" => some .high
  | "info" => some .info
  | "all" => some .all
  | _ => none

/-- The formats by name. -/
def format? : String → Option OutputFormat
  | "console" => some .console
  | "json" => some .json
  | "markdown" => some .markdown
  | _ => none

/-- Takes the value of an option. -/
def Given.accept (g : Given) (value : String) : Switch → Except Stop Given
  | .input => match path? g.input value with
    | some v => .ok { g with input := some v }
    | none => .error .usage
  | .config => match path? g.config value with
    | some v => .ok { g with config := some v }
    | none => .error .usage
  | .detector => match g.detector, detector? value with
    | none, some v => .ok { g with detector := some v }
    | _, _ => .error .usage
  | .format => match g.format, format? value with
    | none, some v => .ok { g with format := some v }
    | _, _ => .error .usage
  | .verbose => .error .usage
  | .help => .error .usage

/-- Takes an option without a value. -/
def Given.flag (g : Given) : Switch → Except Stop Given
  | .verbose => if g.verbose then .error .usage else .ok { g with verbose := true }
  | .help => .error .help
  | _ => .error .usage

/-- What has been read, and the option whose value comes next. -/
abbrev Progress := Given × Option Switch

/-- Reads joined short options. The first option with a value takes the rest of the
letters as its value, or else the next argument. -/
def readLetters (allowed : List Switch) (g : Given) : List Char → Except Stop Progress
  | [] => .ok (g, none)
  | c :: cs =>
    match Switch.ofLetter? c with
    | none => .error .usage
    | some s =>
      if !allowed.contains s then .error .usage
      else if !s.takesValue then do readLetters allowed (← g.flag s) cs
      else match cs with
        | [] => .ok (g, some s)
        | '=' :: value => do return (← g.accept (String.ofList value) s, none)
        | value => do return (← g.accept (String.ofList value) s, none)

/-- Reads a long option, given without its dashes. -/
def readLong (allowed : List Switch) (g : Given) (body : List Char) : Except Stop Progress :=
  let name := body.takeWhile (· != '=')
  match Switch.ofLong? (String.ofList name), body.dropWhile (· != '=') with
  | none, _ => .error .usage
  | some s, rest =>
    if !allowed.contains s then .error .usage
    else match s.takesValue, rest with
      | true, [] => .ok (g, some s)
      | true, _ :: value => do return (← g.accept (String.ofList value) s, none)
      | false, [] => do return (← g.flag s, none)
      | false, _ => .error .usage

/-- Reads one argument that is not the value of an option. -/
def readOption (allowed : List Switch) (g : Given) (arg : String) : Except Stop Progress :=
  match arg.toList with
  | '-' :: '-' :: body => readLong allowed g body
  | '-' :: c :: cs => readLetters allowed g (c :: cs)
  | _ => .error .usage

/-- Does the argument look like an option? A dash alone does not. -/
def looksLikeOption (arg : String) : Bool :=
  match arg.toList with
  | '-' :: _ :: _ => true
  | _ => false

/-- Reads the arguments of a command that allows the given options. -/
def read (allowed : List Switch) : Progress → List String → Except Stop Given
  | (g, none), [] => .ok g
  | (_, some _), [] => .error .usage
  | (g, some s), arg :: rest =>
    if looksLikeOption arg then .error .usage
    else do read allowed (← g.accept arg s, none) rest
  | (g, none), arg :: rest =>
    if arg = "--" then (if rest.isEmpty then .ok g else .error .usage)
    else do read allowed (← readOption allowed g arg) rest

/-! ## Commands -/

/-- Where a command line can have got to: the program itself, the scan commands, or
a command without commands of its own. -/
inductive Place where
  | program
  | scan
  | command
deriving DecidableEq, Repr

/-- The place that a command leads to. Wherever there are commands, `help` is one. -/
def Place.step? : Place → String → Option Place
  | .program, "scan" => some .scan
  | .program, "validate" => some .command
  | .program, "help" => some .command
  | .scan, "run" => some .command
  | .scan, "list" => some .command
  | .scan, "help" => some .command
  | _, _ => none

/-- Decides about a request for help with the command that the names lead to. -/
def helpOn (place : Place) (names : List String) : Stop :=
  match names.foldlM Place.step? place with
  | some _ => .help
  | none => .usage

/-- Decides about an argument that stands where a command is expected. -/
def misplaced (knowsVersion : Bool) (arg : String) : Stop :=
  if arg = "--help" then .help
  else if arg = "--version" then (if knowsVersion then .version else .usage)
  else match arg.toList with
    | '-' :: 'h' :: _ => .help
    | '-' :: 'V' :: _ => if knowsVersion then .version else .usage
    | _ => .usage

/-- Reads the arguments of a scan. -/
def readScanRun (args : List String) : Except Stop Invocation := do
  let g ← read [.input, .config, .detector, .format, .verbose, .help] ({}, none) args
  match g.input with
  | none => .error .usage
  | some input => return .scanRun {
      input
      detector := g.detector.getD .all
      format := g.format.getD .console
      config := g.config
      verbose := g.verbose }

/-- Reads the arguments of the scan commands. -/
def readScan : List String → Except Stop Invocation
  | [] => .error .usage
  | "run" :: args => readScanRun args
  | "list" :: args => do
    let _ ← read [.help] ({}, none) args
    return .scanList
  | "help" :: names => .error (helpOn .scan names)
  | arg :: _ => .error (misplaced false arg)

/-- Reads the arguments of a validation. -/
def readValidate (args : List String) : Except Stop Invocation := do
  let g ← read [.input, .verbose, .help] ({}, none) args
  match g.input with
  | none => .error .usage
  | some input => return .validate input g.verbose

end Arguments

/-- Reads the command line. -/
def Invocation.ofArguments : List String → Except Stop Invocation
  | [] => .error .usage
  | "scan" :: args => Arguments.readScan args
  | "validate" :: args => Arguments.readValidate args
  | "help" :: names => .error (Arguments.helpOn .program names)
  | arg :: _ => .error (Arguments.misplaced true arg)

end PriceTaint
