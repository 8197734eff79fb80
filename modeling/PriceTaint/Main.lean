/-
The command line program.

All decisions are made by `Outcome.ofArguments`. What is left to do here is to look
at the clock and at the terminal, to read the files that the arguments name, and to
print. The files below a directory are listed on standard input, one path a line,
so that a directory `d` is scanned by `find d -type f` piped into the program.
-/
import Std.Time.Zoned
import PriceTaint.Command.Run

set_option autoImplicit false

namespace PriceTaint.Main

/-- The paths that a command names. -/
def pathsOf : Invocation → List String
  | .scanRun options => options.input :: options.config.toList
  | .scanList => []
  | .validate input _ => [input]

/-- The directory that a command may be asked to scan. -/
def directoryOf : Invocation → Option String
  | .scanRun options => some options.input
  | _ => none

/-- The cause of a failed read. Of the errors about the type of a file, the one with
code 21 is that it is a directory. -/
def readError (e : IO.Error) : ReadError :=
  match e with
  | .inappropriateType _ 21 _ => .isDirectory
  | .inappropriateType .. => .notDirectory
  | .invalidArgument .. => .nameTooLong
  | _ => .notFound

/-- The text of a file. -/
def readText (path : String) : IO (Except ReadError String) := do
  try
    let bytes ← IO.FS.readBinFile path
    return match String.fromUTF8? bytes with
      | some text => .ok text
      | none => .error .notText
  catch e => return .error (readError e)

/-- The lines of standard input. -/
partial def inputLines (input : IO.FS.Stream) (before : List String) : IO (List String) := do
  let line ← input.getLine
  if line.isEmpty then return before.reverse
  else inputLines input (Text.lines line ++ before)

/-- The answers about files that have been read beforehand. -/
def diskOf (texts : List (String × Except ReadError String)) (listing : List String) : Disk where
  isDirectory path := match texts.lookup path with
    | some (.error .isDirectory) => true
    | _ => false
  read path := (texts.lookup path).getD (.error .notFound)
  walk _ := .ok listing

/-- Reads files one after the other. -/
def readAll (paths : List String) : IO (List (String × Except ReadError String)) :=
  paths.mapM fun path => return (path, ← readText path)

/-- Reads the files that a command needs. -/
def gather (command : Invocation) : IO Disk := do
  let named ← readAll (pathsOf command)
  match (directoryOf command).bind fun path => named.lookup path with
  | some (Except.error ReadError.isDirectory) =>
    let listing ← inputLines (← IO.getStdin) []
    let below ← readAll (listing.filter Path.isJson)
    return diskOf (named ++ below) listing
  | _ => return diskOf named []

/-- A number with at least two digits. -/
def twoDigits (n : Nat) : String := if n < 10 then "0" ++ toString n else toString n

/-- The current time. -/
def timeStamp : IO String := do
  let now := Std.Time.DateTime.ofTimestamp (← Std.Time.Timestamp.now) Std.Time.TimeZone.ZoneRules.UTC
  let date := toString now.year.toInt ++ "-" ++ twoDigits now.month.toNat ++ "-"
    ++ twoDigits now.day.toNat
  let clock := twoDigits now.hour.toNat ++ ":" ++ twoDigits now.minute.toNat ++ ":"
    ++ twoDigits now.second.toNat
  return date ++ " " ++ clock ++ " UTC"

end PriceTaint.Main

open PriceTaint in
def main (args : List String) : IO UInt32 := do
  let disk ← match Invocation.ofArguments args with
    | .ok command => Main.gather command
    | .error _ => pure FileTree.empty.disk
  let output ← IO.getStdout
  let outcome := Outcome.ofArguments ⟨disk, ← output.isTty, ← Main.timeStamp⟩ args
  output.putStr outcome.output
  output.flush
  (← IO.getStderr).putStr outcome.errors
  return outcome.exit.toUInt32
