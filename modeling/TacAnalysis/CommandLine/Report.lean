/-
# Reports

What a command does, as a sequence of effects to carry out: messages, lines to
print and files to write. A report stops at the first failure. Carrying it out
also stops at the first file that cannot be written.
-/

import TacAnalysis.CommandLine.Request
import TacAnalysis.Error

namespace TacAnalysis.CommandLine

/-- What a message is about. -/
inductive Level where
  | debug
  | info
  | warning
  | error
  deriving DecidableEq, Inhabited

/-- The written form of a level. -/
def Level.render : Level → String
  | debug => "DEBUG"
  | info => "INFO"
  | warning => "WARN"
  | error => "ERROR"

/-- What a written file holds. -/
inductive OutputKind where
  | dot
  | json
  deriving DecidableEq, Inhabited

/-- The name of a kind of output in messages. -/
def OutputKind.name : OutputKind → String
  | dot => "dot"
  | json => "JSON"

/-- Something to carry out. -/
inductive Effect where
  | message (level : Level) (text : String)
  | print (line : String)
  | write (kind : OutputKind) (path text : String)
  deriving DecidableEq, Inhabited

/-- Why a file can be neither read nor written. -/
inductive FileError where
  | missing
  | denied
  | notDirectory
  | isDirectory
  | noSpace
  | nameTooLong
  | nulInName
  | notText
  | other (text : String)
  deriving DecidableEq, Inhabited

/-- The wording of a file error. -/
def FileError.text : FileError → String
  | missing => "No such file or directory (os error 2)"
  | denied => "Permission denied (os error 13)"
  | notDirectory => "Not a directory (os error 20)"
  | isDirectory => "Is a directory (os error 21)"
  | noSpace => "No space left on device (os error 28)"
  | nameTooLong => "File name too long (os error 36)"
  | nulInName => "file name contained an unexpected NUL byte"
  | notText => "stream did not contain valid UTF-8"
  | other text => text

/-- Why a command line fails. A file is unwritable when it cannot be made, and left
unfinished when it is made but does not take its text. -/
inductive Failure where
  | usage (error : UsageError)
  | noCommand
  | unreadable (error : FileError)
  | unwritable (error : FileError)
  | unfinished (kind : OutputKind) (error : FileError)
  | badPattern (pattern : String)
  | program (error : ProgramError)
  | analysis (error : AnalysisError)
  deriving DecidableEq, Inhabited

/-- The wording of a usage error. -/
def UsageError.text : UsageError → String
  | missingOption => "a required option is missing"
  | unknownArgument => "unexpected argument"
  | unknownCommand => "unrecognized command"
  | repeatedOption => "an option is given twice"
  | badValue => "an option has no acceptable value"
  | unneededValue => "an option takes no value"
  | help => "help"
  | version => "version"

/-- The wording of a failure. -/
def Failure.text : Failure → String
  | usage error => error.text
  | noCommand => "bad arguments: missing subcommand"
  | unreadable error => "IO error: " ++ error.text
  | unwritable error => error.text
  | unfinished _ error => error.text
  | badPattern pattern => "malformed pattern: " ++ pattern
  | program error => error.message
  | analysis error => error.message

/-- The effects of a command, and why it fails if it does. -/
structure Report where
  effects : List Effect
  failure : Option Failure
  deriving DecidableEq, Inhabited

/-- A computation that makes a report. -/
abbrev Reporting := ExceptT Failure (StateM (List Effect))

namespace Reporting

/-- Adds an effect to the report. -/
def perform (effect : Effect) : Reporting Unit := modify (· ++ [effect])

/-- Adds a message about what has been found. -/
def info (text : String) : Reporting Unit := perform (.message .info text)

/-- The result of an analysis, or the failure that stops the report. -/
def analyzed {α : Type} : Except AnalysisError α → Reporting α
  | .ok result => pure result
  | .error error => throw (.analysis error)

/-- The report that a computation makes. -/
def report (reporting : Reporting Unit) : Report :=
  match reporting.run.run [] with
  | (.ok (), effects) => ⟨effects, none⟩
  | (.error failure, effects) => ⟨effects, some failure⟩

end Reporting

end TacAnalysis.CommandLine
