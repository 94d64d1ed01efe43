/-
# Arguments

The commands, the options each of them takes, and how a list of arguments sets
those options. An option is written by its word after two dashes or by its
letter after one; its value follows, either in the same argument or as the next
one. Letters of options without value can be written together.

An option whose value may still follow is not settled at once: it is when the
next option is read, or at the end. An argument that means nothing is reported
before anything wrong with the option it follows.
-/

namespace TacAnalysis.CommandLine

/-- The options of all commands. -/
inductive OptionName where
  | debug
  | verbose
  | structured
  | input
  | output
  | json
  | callSelector
  | filterClass
  | filterMethod
  | across
  | all
  | selector
  | shell
  deriving DecidableEq, Inhabited

namespace OptionName

/-- The word an option is written by. -/
def word : OptionName → String
  | debug => "debug"
  | verbose => "verbose"
  | structured => "ecslog"
  | input => "input"
  | output => "output"
  | json => "json"
  | callSelector => "pta"
  | filterClass => "filter-class"
  | filterMethod => "filter-method"
  | across => "inter"
  | all => "all"
  | selector => "selector"
  | shell => "shell"

/-- The letter an option can be written by. -/
def letter? : OptionName → Option Char
  | debug => some 'd'
  | verbose => some 'v'
  | structured => some 'e'
  | input => some 'i'
  | output => some 'o'
  | json => some 'j'
  | callSelector => some 'p'
  | all => some 'a'
  | selector | shell => some 's'
  | filterClass | filterMethod | across => none

/-- Whether an option has a value; the others are only set or not. -/
def takesValue : OptionName → Bool
  | debug | verbose | structured | across | all => false
  | _ => true

/-- The shells that completions can be made for. -/
def shells : List String := ["bash", "elvish", "fish", "powershell", "zsh"]

/-- Whether an option can have a value. -/
def accepts (option : OptionName) (value : String) : Bool :=
  match option with
  | shell => shells.contains value
  | _ => true

end OptionName

/-- The commands. -/
inductive CommandName where
  | callGraph
  | constants
  | deadCode
  | hierarchy
  | pointsTo
  | completions
  deriving DecidableEq, Inhabited

namespace CommandName

/-- All commands. -/
def all : List CommandName := [callGraph, constants, deadCode, hierarchy, pointsTo, completions]

/-- The word a command is written by. -/
def word : CommandName → String
  | callGraph => "callgraph"
  | constants => "constprop"
  | deadCode => "deadcode"
  | hierarchy => "hierarchy"
  | pointsTo => "pta"
  | completions => "gen-completions"

/-- The command of a word. -/
def named? (word : String) : Option CommandName := all.find? (·.word = word)

/-- The options of every command that analyzes a program. -/
def sharedOptions : List OptionName := [.debug, .verbose, .structured, .input]

/-- The options of a command. -/
def options : CommandName → List OptionName
  | callGraph =>
      sharedOptions ++ [.output, .json, .callSelector, .filterClass, .filterMethod]
  | constants => sharedOptions ++ [.filterClass, .filterMethod, .across, .callSelector]
  | deadCode => sharedOptions ++ [.filterClass, .filterMethod, .all]
  | hierarchy => sharedOptions ++ [.output]
  | pointsTo => sharedOptions ++ [.json, .filterClass, .filterMethod, .selector]
  | completions => [.shell]

/-- The option a command cannot do without. -/
def required : CommandName → OptionName
  | completions => .shell
  | _ => .input

/-- The options that need another one to be set. -/
def dependencies : CommandName → List (OptionName × OptionName)
  | constants => [(.callSelector, .across)]
  | _ => []

end CommandName

/-- Why arguments ask for nothing that can be run. -/
inductive UsageError where
  | missingOption
  | unknownArgument
  | unknownCommand
  | repeatedOption
  /-- An option has no value, or one it cannot have. -/
  | badValue
  /-- An option has a value and takes none. -/
  | unneededValue
  /-- Help is asked for. -/
  | help
  /-- The version is asked for. -/
  | version
  deriving DecidableEq, Inhabited

/-- The options that may be met in a list of arguments. -/
structure Vocabulary where
  options : List OptionName
  hasVersion : Bool
  deriving DecidableEq, Inhabited

/-- What an option is for: to be set, or to ask for a text about the program. -/
inductive Meaning where
  | set (option : OptionName)
  | ask (question : UsageError)
  deriving DecidableEq, Inhabited

namespace Vocabulary

variable (vocabulary : Vocabulary)

/-- What an option written by a word is for. -/
def meaningOfWord? (word : String) : Option Meaning :=
  if word = "help" then some (.ask .help)
  else if word = "version" && vocabulary.hasVersion then some (.ask .version)
  else (vocabulary.options.find? (·.word = word)).map .set

/-- What an option written by a letter is for. -/
def meaningOfLetter? (letter : Char) : Option Meaning :=
  if letter = 'h' then some (.ask .help)
  else if letter = 'V' && vocabulary.hasVersion then some (.ask .version)
  else (vocabulary.options.find? (·.letter? = some letter)).map .set

end Vocabulary

/-- The options of a command with its name. Those without value are set to an
empty text. -/
abbrev Settings := List (OptionName × String)

/-- The value of an option, if it is set. -/
def Settings.value? (settings : Settings) (option : OptionName) : Option String :=
  List.lookup option settings

/-- Whether an option is set. -/
def Settings.has (settings : Settings) (option : OptionName) : Bool :=
  (settings.value? option).isSome

/-- The options set so far, and the one whose value may still follow, or has
followed. -/
structure Reading where
  settings : Settings
  pending : Option (OptionName × Option String)
  deriving DecidableEq, Inhabited

namespace Reading

/-- Before any argument no option is set. -/
def initial : Reading := ⟨[], none⟩

/-- Sets an option, which can be done only once. -/
def record (settings : Settings) (option : OptionName) (value : String) :
    Except UsageError Reading :=
  if settings.has option then .error .repeatedOption
  else if option.accepts value then .ok ⟨settings ++ [(option, value)], none⟩
  else .error .badValue

/-- Sets the option that is pending, if there is one. -/
def settle (reading : Reading) : Except UsageError Reading :=
  match reading.pending with
  | none => .ok reading
  | some (_, none) => .error .badValue
  | some (option, some value) => record reading.settings option value

/-- Reads what an option is for, and the value written with it. -/
def follow (reading : Reading) (value : Option String) : Meaning → Except UsageError Reading
  | .ask question => do
      let _ ← reading.settle
      .error question
  | .set option => do
      let settled ← reading.settle
      match option.takesValue, value with
      | true, none => .ok { settled with pending := some (option, none) }
      | _, _ => record settled.settings option (value.getD "")

/-- Takes an argument as the value that a pending option waits for. -/
def take (reading : Reading) (argument : String) : Except UsageError Reading :=
  match reading.pending with
  | some (option, none) => .ok { reading with pending := some (option, some argument) }
  | _ => .error .unknownArgument

end Reading

/-- The forms of an argument. -/
inductive Form where
  /-- Two dashes alone: no option follows. -/
  | lastOption
  | word (word : String) (value : Option String)
  | letters (letters : List Char)
  | plain
  deriving DecidableEq, Inhabited

/-- The value written after an equals sign, if there is one. -/
def attached? : List Char → Option String
  | '=' :: value => some (String.ofList value)
  | _ => none

/-- The form of an argument. -/
def Form.of (argument : String) : Form :=
  match argument.toList with
  | ['-', '-'] => lastOption
  | '-' :: '-' :: option =>
      word (String.ofList (option.takeWhile (· != '='))) (attached? (option.dropWhile (· != '=')))
  | '-' :: c :: rest => letters (c :: rest)
  | _ => plain

namespace Vocabulary

variable (vocabulary : Vocabulary)

/-- Reads an option written by a word. -/
def readWord (reading : Reading) (word : String) (value : Option String) :
    Except UsageError Reading :=
  match vocabulary.meaningOfWord? word with
  | none => .error .unknownArgument
  | some (.set option) =>
      if value.isSome && !option.takesValue then .error .unneededValue
      else reading.follow value (.set option)
  | some (.ask question) =>
      if value.isSome then .error .unneededValue else reading.follow none (.ask question)

/-- Reads options written by their letters. The value of an option may follow its
letter, after an equals sign or not. -/
def readLetters (reading : Reading) : List Char → Except UsageError Reading
  | [] => .ok reading
  | letter :: rest =>
      match vocabulary.meaningOfLetter? letter with
      | none => .error .unknownArgument
      | some (.ask question) => reading.follow none (.ask question)
      | some (.set option) =>
          if option.takesValue then
            let value := if rest.isEmpty then none
              else some ((attached? rest).getD (String.ofList rest))
            reading.follow value (.set option)
          else do readLetters (← reading.follow none (.set option)) rest

/-- Reads the arguments of a command. -/
def readArguments (reading : Reading) : List String → Except UsageError Reading
  | [] => reading.settle
  | argument :: rest =>
      match Form.of argument with
      | .lastOption => if rest.isEmpty then reading.settle else .error .unknownArgument
      | .word word value => do readArguments (← vocabulary.readWord reading word value) rest
      | .letters letters => do readArguments (← vocabulary.readLetters reading letters) rest
      | .plain => do readArguments (← reading.take argument) rest

end Vocabulary

namespace CommandName

/-- The options that may be met after a command. -/
def vocabulary (command : CommandName) : Vocabulary where
  options := command.options
  hasVersion := command != completions

/-- Whether some option that is needed is not set. -/
def lacks (command : CommandName) (settings : Settings) : Bool :=
  !settings.has command.required ||
    command.dependencies.any fun dependency =>
      settings.has dependency.1 && !settings.has dependency.2

/-- The options that the arguments of a command set. -/
def settings (command : CommandName) (arguments : List String) : Except UsageError Settings := do
  let reading ← command.vocabulary.readArguments .initial arguments
  if command.lacks reading.settings then .error .missingOption else .ok reading.settings

end CommandName

/-- The options that may be met before a command. -/
def commonVocabulary : Vocabulary := ⟨[], true⟩

/-- Whether a word designates a command. Asking for help is one, too. -/
def isCommandWord (word : String) : Bool := word = "help" || (CommandName.named? word).isSome

/-- The outcome of asking for help on the command that some words lead to. Only
one word can, since commands have no commands of their own. -/
def helpOn : List String → UsageError
  | [] => .help
  | [word] => if isCommandWord word then .help else .unknownCommand
  | _ => .unknownCommand

/-- The command that arguments begin with, and its settings. There may be no
command at all. -/
def readCommand : List String → Except UsageError (Option (CommandName × Settings))
  | [] => .ok none
  | argument :: rest =>
      match CommandName.named? argument with
      | some command => do .ok (some (command, ← command.settings rest))
      | none =>
          if argument = "help" then .error (helpOn rest)
          else
            match Form.of argument with
            | .lastOption =>
                match rest with
                | [] => .ok none
                | word :: _ =>
                    .error (if isCommandWord word then .unknownArgument else .unknownCommand)
            | .word word value => do
                let _ ← commonVocabulary.readWord .initial word value
                readCommand rest
            | .letters letters => do
                let _ ← commonVocabulary.readLetters .initial letters
                readCommand rest
            | .plain => .error .unknownCommand

end TacAnalysis.CommandLine
