/-
# Requests

What a command line asks for: a program to read, an analysis of it, and where
its results go.
-/

import TacAnalysis.CommandLine.Arguments

namespace TacAnalysis.CommandLine

/-- The patterns that select methods, by the name of their class and by their own. -/
structure Filter where
  className : Option String
  methodName : Option String
  deriving DecidableEq, Inhabited

/-- An analysis to run, with the files to write and the methods to show. -/
inductive Command where
  | callGraph (selector drawing json : Option String) (filter : Filter)
  | constants (filter : Filter)
  | constantsAcross (selector : Option String) (filter : Filter)
  | deadCode (filter : Filter) (showsAll : Bool)
  | hierarchy (drawing : Option String)
  | pointsTo (selector : String) (json : Option String) (filter : Filter)
  deriving DecidableEq, Inhabited

/-- How messages are shown. -/
structure Messages where
  /-- Messages about the progress of the work are shown, too. -/
  detailed : Bool
  /-- Messages are shown as records. -/
  structured : Bool
  deriving DecidableEq, Inhabited

/-- A program to read and what to do with it. -/
structure Request where
  input : String
  messages : Messages
  command : Command
  deriving DecidableEq, Inhabited

/-- The selector of points-to analyses unless another one is asked for. -/
def defaultSelector : String := "ci"

namespace Settings

variable (settings : Settings)

/-- The patterns that settings give. -/
def filter : Filter := ⟨settings.value? .filterClass, settings.value? .filterMethod⟩

/-- The command that settings are for; completions are no analysis. -/
def command? : CommandName → Option Command
  | .callGraph =>
      some (.callGraph (settings.value? .callSelector) (settings.value? .output)
        (settings.value? .json) settings.filter)
  | .constants =>
      some (if settings.has .across then
        .constantsAcross (settings.value? .callSelector) settings.filter
      else .constants settings.filter)
  | .deadCode => some (.deadCode settings.filter (settings.has .all))
  | .hierarchy => some (.hierarchy (settings.value? .output))
  | .pointsTo =>
      some (.pointsTo ((settings.value? .selector).getD defaultSelector)
        (settings.value? .json) settings.filter)
  | .completions => none

/-- The request that settings make. -/
def request? (name : CommandName) : Option Request := do
  let command ← settings.command? name
  let input ← settings.value? .input
  some ⟨input, ⟨settings.has .debug || settings.has .verbose, settings.has .structured⟩, command⟩

end Settings

/-- The line of help on an option. -/
def OptionName.helpLine (option : OptionName) : String :=
  "      " ++ (option.letter?.elim "" fun letter => String.ofList ['-', letter, ',', ' ']) ++
    "--" ++ option.word ++ (if option.takesValue then " <value>" else "")

/-- The lines of help on a command. -/
def CommandName.helpLines (command : CommandName) : List String :=
  ("  " ++ command.word) :: command.options.map OptionName.helpLine

/-- The help on all commands. -/
def helpText : String :=
  "\n".intercalate ("Commands:" :: CommandName.all.flatMap CommandName.helpLines)

/-- The version of the program. -/
def versionText : String := "0.3.0"

/-- The words that a shell can complete, one on a line. -/
def completionText : String :=
  "\n".intercalate (CommandName.all.map CommandName.word ++
    (CommandName.all.flatMap CommandName.options).eraseDups.map fun option => "--" ++ option.word)

end TacAnalysis.CommandLine
