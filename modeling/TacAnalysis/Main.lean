/-
# The program

Reads the arguments and the program they name, and carries out the report of the
command: messages go to the standard error, lines to the standard output.
-/

import TacAnalysis.CommandLine.Execution

namespace TacAnalysis.CommandLine

/-- The cause of an error of the system. -/
def FileError.of : IO.Error → FileError
  | .noFileOrDirectory .. => missing
  | .permissionDenied .. => denied
  | .inappropriateType _ code _ => if code = 21 then isDirectory else notDirectory
  | .invalidArgument _ 36 _ => nameTooLong
  | .resourceExhausted _ 28 _ => noSpace
  | error => other (toString error)

/-- The text of a file. -/
def readText (path : String) : IO (Except FileError String) := do
  try
    match String.fromUTF8? (← IO.FS.readBinFile path) with
    | some text => pure (.ok text)
    | none => pure (.error .notText)
  catch error => pure (.error (.of error))

/-- Shows a message, as a record on one line if that is asked for. -/
def showMessage (messages : Messages) (level : Level) (text : String) : IO Unit :=
  if level = .debug && !messages.detailed then pure ()
  else if messages.structured then
    IO.eprintln (Text.Document.oneLine [("log.level", level.render), ("message", text)])
  else IO.eprintln (level.render ++ " " ++ text)

/-- Carries out an effect. Only writing can fail. -/
def carryOut (messages : Messages) : Effect → IO (Option Failure)
  | .message level text => do
      showMessage messages level text
      pure none
  | .print line => do
      IO.println line
      pure none
  | .write kind path text => do
      match ← (IO.FS.Handle.mk path .write).toBaseIO with
      | .error error => pure (some (.unwritable (.of error)))
      | .ok file =>
          match ← (do file.putStr text; file.flush : IO Unit).toBaseIO with
          | .error error => pure (some (.unfinished kind (.of error)))
          | .ok () => pure none

/-- Carries out a report up to its end or to the first file that cannot be written. -/
def carryOutAll (messages : Messages) (report : Report) : IO (Option Failure) := do
  for effect in report.effects do
    if let some failure ← carryOut messages effect then return some failure
  return report.failure

/-- Does what a request asks for. -/
def Request.perform (request : Request) : IO (Option Failure) := do
  match ← readText request.input with
  | .error error => pure (some (.unreadable error))
  | .ok text => carryOutAll request.messages (request.report text)

/-- Does what some arguments ask for. -/
def perform (arguments : List String) : IO (Option Failure) := do
  match readCommand arguments with
  | .error error => pure (some (.usage error))
  | .ok none => pure (some .noCommand)
  | .ok (some (command, settings)) =>
      match settings.request? command with
      | some request => request.perform
      | none => do
          IO.println completionText
          pure none

end TacAnalysis.CommandLine

open TacAnalysis.CommandLine in
/-- Runs the program on its arguments. -/
def main (arguments : List String) : IO UInt32 := do
  match ← perform arguments with
  | none => pure 0
  | some (.usage .help) => do
      IO.println helpText
      pure 0
  | some (.usage .version) => do
      IO.println versionText
      pure 0
  | some (.usage error) => do
      IO.eprintln ("error: " ++ error.text)
      pure 2
  | some failure => do
      IO.eprintln ("Error: " ++ failure.text)
      pure 1
