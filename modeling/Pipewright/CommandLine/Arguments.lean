import Pipewright.CommandLine.Command
import Pipewright.Text.Integer

/-!
# Reading arguments

An argument is an option in its long form (`--file p`, `--file=p`), options in their short form, which may be
bundled (`-f p`, `-fp`, `-f=p`, `-vf p`), the name of a command, or a value. Each option is given once at most,
assignments apart.

A value that stands by itself is looked at no sooner than the next option that is known, or the end: until then
another fault in the arguments is told first.
-/
namespace Pipewright

/-- Why arguments name no command that can be carried out. -/
inductive NoCommand where
  | helpAsked
  | versionAsked
  | noArguments
  | missingCommand
  | unknownCommand
  | missingOption
  /-- An option stands without its value. -/
  | missingValue
  | unknownArgument
  | repeatedOption
  | invalidValue
  /-- An option that takes no value is given one. -/
  | needlessValue
deriving DecidableEq

namespace NoCommand

/-- Help and the version are answers; all else is a fault in the arguments. -/
def isFault : NoCommand → Bool
  | .helpAsked | .versionAsked => false
  | _ => true

def version : String := "ability-pipeline 0.1.0"

def help : String := "Run declarative pipelines of abilities, transforms and control flow

Usage: ability-pipeline [OPTIONS] <COMMAND>

Commands:
  run       Run a pipeline
  validate  Validate a pipeline definition
  plan      Outline a pipeline without executing it

Options:
  -f, --file <FILE>            The pipeline
  -c, --context <FILE>         The initial context of a run
  -a, --abilities <FILE>       The fixtures that stand for abilities in a run
      --var <KEY=VALUE>        A variable of the context
      --max-steps <NUMBER>     How many steps may run
      --max-depth <NUMBER>     How deep step lists may nest
      --timeout <SECONDS>      How long a run may take
      --json                   Print JSON
  -v, --verbose                Tell the events of a run
  -h, --help                   Print help
  -V, --version                Print the version"

/-- What is printed instead of carrying out a command. -/
def text : NoCommand → String
  | .versionAsked => version
  | _ => help

end NoCommand

/-- What an option sets. -/
inductive OptionName where
  | file
  | context
  | abilities
  | variable
  | maxSteps
  | maxDepth
  | timeout
  | json
  | verbose
  | help
  | version
deriving DecidableEq

namespace OptionName

def long : OptionName → String
  | .file => "file"
  | .context => "context"
  | .abilities => "abilities"
  | .variable => "var"
  | .maxSteps => "max-steps"
  | .maxDepth => "max-depth"
  | .timeout => "timeout"
  | .json => "json"
  | .verbose => "verbose"
  | .help => "help"
  | .version => "version"

def short? : OptionName → Option Char
  | .file => some 'f'
  | .context => some 'c'
  | .abilities => some 'a'
  | .verbose => some 'v'
  | .help => some 'h'
  | .version => some 'V'
  | _ => none

def takesValue : OptionName → Bool
  | .json | .verbose | .help | .version => false
  | _ => true

end OptionName

/-- What the options read so far have set. -/
structure Settings where
  file : Option String
  context : Option String
  abilities : Option String
  assignments : List Assignment
  maxSteps : Option Nat
  maxDepth : Option Nat
  timeout : Option Nat
  json : Bool
  verbose : Bool

namespace Settings

def none : Settings := ⟨.none, .none, .none, [], .none, .none, .none, false, false⟩

/-- A value for an option that has none yet. -/
def once {α : Type} (current : Option α) (value : Option α) : Except NoCommand (Option α) :=
  match current, value with
  | some _, _ => .error .repeatedOption
  | .none, some a => .ok (some a)
  | .none, .none => .error .invalidValue

/-- A flag that is not up yet. -/
def raise (flag : Bool) : Except NoCommand Bool := if flag then .error .repeatedOption else .ok true

/-- Gives an option its value; that of a flag is not looked at. -/
def put (settings : Settings) (name : OptionName) (value : String) : Except NoCommand Settings :=
  let number := Text.readNat64? value.toList
  match name with
  | .file => do return { settings with file := ← once settings.file (some value) }
  | .context => do return { settings with context := ← once settings.context (some value) }
  | .abilities => do return { settings with abilities := ← once settings.abilities (some value) }
  | .variable =>
    match Assignment.read value with
    | .ok assignment => .ok { settings with assignments := settings.assignments ++ [assignment] }
    | .error _ => .error .invalidValue
  | .maxSteps => do return { settings with maxSteps := ← once settings.maxSteps number }
  | .maxDepth => do return { settings with maxDepth := ← once settings.maxDepth number }
  | .timeout => do return { settings with timeout := ← once settings.timeout number }
  | .json => do return { settings with json := ← raise settings.json }
  | .verbose => do return { settings with verbose := ← raise settings.verbose }
  | .help => .error .helpAsked
  | .version => .error .versionAsked

end Settings

/-- The form of an argument. -/
inductive Argument where
  /-- Two dashes alone: no option follows. -/
  | separator
  | long (name : String) (value : Option String)
  | short (letters : List Char)
  | word

/-- An argument by its dashes; a single dash alone is a word. -/
def Argument.ofText (text : String) : Argument :=
  match text.toList with
  | ['-', '-'] => .separator
  | '-' :: '-' :: cs =>
    match cs.span (· ≠ '=') with
    | (name, []) => .long (String.ofList name) none
    | (name, _ :: value) => .long (String.ofList name) (some (String.ofList value))
  | '-' :: c :: cs => .short (c :: cs)
  | _ => .word

/-- An option whose value is still to come, or is there and not looked at yet. -/
structure Pending where
  name : OptionName
  value : Option String

/-- Arguments in the middle of being read. -/
structure ArgumentState where
  settings : Settings
  pending : Option Pending
  /-- Whether options are over. -/
  closed : Bool

namespace ArgumentState

def start : ArgumentState := ⟨.none, none, false⟩

/-- The settings with the value of the pending option. -/
def settled (state : ArgumentState) : Except NoCommand Settings :=
  match state.pending with
  | none => .ok state.settings
  | some ⟨_, none⟩ => .error .missingValue
  | some ⟨name, some value⟩ => state.settings.put name value

/-- Gives an option a value that is part of the argument itself. -/
def put (state : ArgumentState) (name : OptionName) (value : String) : Except NoCommand ArgumentState := do
  let settings ← state.settled
  let settings ← settings.put name value
  return { state with settings := settings, pending := none }

/-- Waits for the value of an option. -/
def await (state : ArgumentState) (name : OptionName) : Except NoCommand ArgumentState := do
  let settings ← state.settled
  return { state with settings := settings, pending := some ⟨name, none⟩ }

/-- Reads the letters of an argument in short form. What follows the letter of an option that takes a value
is its value. -/
def bundle (options : List OptionName) (state : ArgumentState) : List Char → Except NoCommand ArgumentState
  | [] => .ok state
  | c :: cs =>
    match options.find? (·.short? = some c) with
    | none => .error .unknownArgument
    | some name =>
      if name.takesValue then
        match cs with
        | [] => state.await name
        | '=' :: value => state.put name (String.ofList value)
        | value => state.put name (String.ofList value)
      else do
        let state ← state.put name ""
        bundle options state cs

/-- Reads one argument of a command with these options. A word that no option waits for is a stray one. -/
def take (options : List OptionName) (stray : NoCommand) (state : ArgumentState) (text : String) :
    Except NoCommand ArgumentState :=
  if state.closed then .error stray
  else
    match Argument.ofText text with
    | .separator => .ok { state with closed := true }
    | .long long value =>
      match options.find? (·.long = long) with
      | none => .error .unknownArgument
      | some name =>
        match name.takesValue, value with
        | true, some value => state.put name value
        | true, none => state.await name
        | false, some _ => .error .needlessValue
        | false, none => state.put name ""
    | .short letters => bundle options state letters
    | .word =>
      match state.pending with
      | some ⟨name, none⟩ => .ok { state with pending := some ⟨name, some text⟩ }
      | _ => .error stray

end ArgumentState

/-- The commands by kind. -/
inductive CommandName where
  | run
  | validate
  | plan
deriving DecidableEq

namespace CommandName

def parse? : String → Option CommandName
  | "run" => some .run
  | "validate" => some .validate
  | "plan" => some .plan
  | _ => none

def options : CommandName → List OptionName
  | .run => [.file, .context, .abilities, .variable, .maxSteps, .maxDepth, .timeout, .json, .verbose, .help]
  | .validate | .plan => [.file, .json, .verbose, .help]

/-- The command that settings make of a name. -/
def command (name : CommandName) (settings : Settings) (file : String) : Command :=
  match name with
  | .run => .run ⟨file, settings.context, settings.abilities, settings.assignments, settings.maxSteps,
      settings.maxDepth, settings.timeout, settings.json⟩
  | .validate => .validate ⟨file, settings.json⟩
  | .plan => .plan ⟨file, settings.json⟩

/-- Reads the arguments behind the name of a command. -/
def read (name : CommandName) (verbose : Bool) (arguments : List String) : Except NoCommand Invocation := do
  let state ← arguments.foldlM (ArgumentState.take name.options .unknownArgument) .start
  let settings ← state.settled
  match settings.file with
  | none => .error .missingOption
  | some file => return ⟨name.command settings file, verbose || settings.verbose⟩

end CommandName

namespace Invocation

/-- The word that asks for help, on the program or on a command. -/
def helpWord : String := "help"

def isCommandWord (text : String) : Bool := (CommandName.parse? text).isSome || text = helpWord

/-- What follows the word that asks for help: nothing, or a command. -/
def helpOn : List String → NoCommand
  | [] => .helpAsked
  | [text] => if isCommandWord text then .helpAsked else .unknownCommand
  | _ => .unknownCommand

/-- Reads arguments up to the name of a command, and then those of the command. -/
def readFrom (state : ArgumentState) : List String → Except NoCommand Invocation
  | [] => if state.settings.verbose then .error .missingCommand else .error .noArguments
  | text :: rest =>
    if !state.closed && text = helpWord then .error (helpOn rest)
    else
      match if state.closed then none else CommandName.parse? text with
      | some name => name.read state.settings.verbose rest
      | none => do
        let stray := if isCommandWord text then .unknownArgument else .unknownCommand
        readFrom (← state.take [.verbose, .help, .version] stray text) rest

/-- Reads the arguments of the program. -/
def read (arguments : List String) : Except NoCommand Invocation := readFrom .start arguments

end Invocation

end Pipewright
