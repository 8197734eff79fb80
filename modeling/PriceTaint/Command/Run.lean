/-
Running the commands.

A command answers with a transcript: what it prints, and the failure it ends with,
if any. Scanning a directory scans each JSON document below it as if it were given
alone; documents that cannot be loaded are passed over, but a directory that cannot
be listed is a failure.
-/
import Std.Data.TreeMap
import PriceTaint.Command.Arguments
import PriceTaint.Command.Failure
import PriceTaint.Command.Print

set_option autoImplicit false

namespace PriceTaint

/-- What a command prints, and how it fails. -/
structure Transcript where
  output : String
  failure : Option Failure := none
deriving DecidableEq, Repr

/-- Prints something before the rest. -/
def Transcript.after (text : String) (t : Transcript) : Transcript :=
  { t with output := text ++ t.output }

/-- Everything around a command that it depends on. -/
structure Surroundings where
  disk : Disk
  /-- Whether colours are on. -/
  color : Bool
  /-- The time that reports are stamped with. -/
  time : String

namespace Command

/-! ## Loading -/

/-- Loads a document. -/
def loadDocument (disk : Disk) (path : String) : Except Failure Document :=
  match disk.read path with
  | .error e => .error (.unreadDocument path e)
  | .ok text => match Document.parse text with
    | .error e => .error (.invalidDocument path e)
    | .ok d => .ok d

/-- Loads settings. -/
def loadSettings (disk : Disk) (path : String) : Except Failure Settings :=
  match disk.read path with
  | .error e => .error (.unreadSettings path e)
  | .ok text => match Settings.parse? text with
    | none => .error (.invalidSettings path)
    | some s => .ok s

/-! ## Scanning -/

/-- The session that a choice of detectors stands for. -/
def session (choice : DetectorChoice) (settings : Settings) : Session where
  settings := settings
  scanners := match choice with
    | .high => [Detector.movedAmounts.toScanner]
    | .info => [Detector.returnedValues.toScanner]
    | .all => Catalogue.standard.all

/-- Scans one document. -/
def scanDocument (disk : Disk) (s : Session) (path : String) : Except Failure ScanReport :=
  (loadDocument disk path).map fun d => s.run (.ofDocument d s.settings)

/-- The documents below a directory. -/
def documentsBelow (disk : Disk) (directory : String) : Except Failure (List String) :=
  match disk.walk directory with
  | .error e => .error (.unwalkedDirectory directory e)
  | .ok files => .ok (files.filter Path.isJson)

/-- Enters the findings of a document, if it can be loaded and has any. -/
def enterDocument (disk : Disk) (s : Session) (all : Std.TreeMap String (List Finding) compare)
    (path : String) : Std.TreeMap String (List Finding) compare :=
  match scanDocument disk s path with
  | .error _ => all
  | .ok r => if r.isEmpty then all else all.insert path r.findings

/-- The findings of the documents at the given paths, in the order of paths. -/
def scanDocuments (disk : Disk) (s : Session) (paths : List String) : Print.DirectoryFindings :=
  (paths.foldl (enterDocument disk s) ∅).toList

/-- Scans one document and prints the report. -/
def scanFile (env : Surroundings) (s : Session) (o : ScanOptions) : Transcript :=
  let mode : Print.Mode := ⟨env.color, o.verbose⟩
  Transcript.after (if o.verbose then Print.line ("🔍 Scanning: " ++ o.input) else "")
    (match scanDocument env.disk s o.input with
    | .error f => ⟨"", some f⟩
    | .ok r => match o.format with
      | .console => ⟨Print.reportConsole mode o.input r, none⟩
      | .json => ⟨Print.line r.json, none⟩
      | .markdown => ⟨Print.line (r.markdown env.time), none⟩)

/-- Scans documents and prints their findings. -/
def scanPaths (env : Surroundings) (s : Session) (o : ScanOptions) (paths : List String) :
    Transcript :=
  let mode : Print.Mode := ⟨env.color, o.verbose⟩
  let all := scanDocuments env.disk s paths
  Transcript.after
    (if o.verbose then Print.line ("📁 Found " ++ toString paths.length ++ " program documents")
      else "")
    (match o.format with
    | .console => ⟨Print.directoryConsole mode all, none⟩
    | .json => ⟨Print.directoryJson all, none⟩
    | .markdown => ⟨Print.directoryMarkdown all, none⟩)

/-- Scans the documents below a directory, if there are any. -/
def scanDirectory (env : Surroundings) (s : Session) (o : ScanOptions) : Transcript :=
  Transcript.after (if o.verbose then Print.line ("🔍 Scanning directory: " ++ o.input) else "")
    (match documentsBelow env.disk o.input with
    | .error f => ⟨"", some f⟩
    | .ok [] => ⟨Print.line ("⚠️  No program documents found in " ++ o.input), none⟩
    | .ok paths => scanPaths env s o paths)

/-- The settings that a scan asks for. -/
def settingsFor (disk : Disk) (o : ScanOptions) : Except Failure Settings :=
  match o.config with
  | some path => loadSettings disk path
  | none => .ok {}

/-- Scans a document or a directory. -/
def scan (env : Surroundings) (o : ScanOptions) : Transcript :=
  match settingsFor env.disk o with
  | .error f => ⟨"", some f⟩
  | .ok settings =>
    let s := session o.detector settings
    if env.disk.isDirectory o.input then scanDirectory env s o else scanFile env s o

/-! ## Other commands -/

/-- Lists the scanners. -/
def list (env : Surroundings) : Transcript :=
  ⟨Print.scannerList env.color (Catalogue.standard.all.map Scanner.info), none⟩

/-- Checks a document. -/
def validate (env : Surroundings) (path : String) (verbose : Bool) : Transcript :=
  Transcript.after (Print.validationHeader env.color path)
    (match loadDocument env.disk path with
    | .error f => ⟨Print.invalid env.color f.inline, some f⟩
    | .ok d => ⟨Print.valid ⟨env.color, verbose⟩ d, none⟩)

end Command

/-- Runs a command. -/
def Invocation.run (env : Surroundings) : Invocation → Transcript
  | .scanRun options => Command.scan env options
  | .scanList => Command.list env
  | .validate input verbose => Command.validate env input verbose

/-- How a run of the program ends. -/
structure Outcome where
  exit : Nat
  output : String
  errors : String
deriving DecidableEq, Repr

/-- The version of the program. -/
def version : String := "0.2.0"

/-- What the program answers to `--version`. -/
def versionLine : String := "spotcheck " ++ version ++ "\n"

/-- The outcome of a command line. Wrong arguments end with code 2 and failures
with code 1. -/
def Outcome.ofArguments (env : Surroundings) (args : List String) : Outcome :=
  match Invocation.ofArguments args with
  | .error .usage => ⟨2, "", ""⟩
  | .error .help => ⟨0, "", ""⟩
  | .error .version => ⟨0, versionLine, ""⟩
  | .ok invocation =>
    let t := invocation.run env
    match t.failure with
    | none => ⟨0, t.output, ""⟩
    | some f => ⟨1, t.output, f.report⟩

end PriceTaint
