import Pipewright.CommandLine.Command
import Pipewright.Fixture
import Pipewright.Run.Runtime
import Pipewright.Terminal
import Pipewright.Yaml.Reader

/-!
# Carrying out commands

What a command comes to, given the texts of the files it reads, and what it prints.
-/
namespace Pipewright

/-- Why a command cannot be carried out. -/
inductive CommandError where
  | pipelineFile
  | limits
  | unreadable (file : String)
  | malformed (file : String)
  | contextShape (file : String)
  | unreadableAbilities (file : String)
  | malformedAbilities (file : String)
  | definition (error : RunError)

def CommandError.message : CommandError → String
  | .pipelineFile => "Failed to load pipeline"
  | .limits => "Invalid 'limits' block in pipeline file"
  | .unreadable file => "Failed to read " ++ file
  | .malformed file => "Failed to parse " ++ file
  | .contextShape file => "Context file " ++ file ++ " must contain an object"
  | .unreadableAbilities file => "Failed to read abilities file " ++ file
  | .malformedAbilities file => "Failed to parse abilities file " ++ file
  | .definition error => error.message

/-- The texts of the files that can be read. -/
abbrev Files := String → Option String

namespace Files

def load (files : Files) (file : String) : Except CommandError Value :=
  match files file with
  | none => .error (.unreadable file)
  | some text =>
    match Yaml.value? text with
    | none => .error (.malformed file)
    | some v => .ok v

def definition (files : Files) (file : String) : Except CommandError Value :=
  (files.load file).mapError fun _ => .pipelineFile

/-- The variables of a context file; an empty file has none. -/
def contextOf (files : Files) (file : String) : Except CommandError (Fields Value) := do
  match ← files.load file with
  | .obj fields => return fields
  | .null => return []
  | _ => throw (.contextShape file)

/-- The context that a run begins with. Variables given as options stand above those of the file. -/
def context (files : Files) (options : RunOptions) : Except CommandError (Fields Value) := do
  let ofFile ← match options.context with
    | some file => files.contextOf file
    | none => .ok []
  return ofFile.extend (options.assignments.map fun assignment => (assignment.name, assignment.value))

def abilities (files : Files) (options : RunOptions) : Except CommandError Abilities :=
  match options.abilities with
  | none => .ok Abilities.none
  | some file =>
    match files file with
    | none => .error (.unreadableAbilities file)
    | some text =>
      match Fixtures.read? text with
      | none => .error (.malformedAbilities file)
      | some fixtures => .ok fixtures.abilities

end Files

/-- The limits that a definition sets. -/
def limitsOf (definition : Value) : Except CommandError (Option Limits) :=
  match definition.child? "limits" with
  | none => .ok none
  | some v => ((Limits.decode v).map some).mapError fun _ => .limits

/-- What a command came to. -/
inductive Outcome where
  | ran (report : Report)
  | checked (file : String) (definition : Value)
  /-- No plan is made of a definition with errors. -/
  | refused (errors : List String)
  | planned (file : String) (outline : Outline)

/-- The rules that commands check definitions against. -/
def Rules.standard : Rules := ⟨standardNesting, some Catalog.builtin.names⟩

namespace Command

def performRun (files : Files) (options : RunOptions) : Except CommandError Outcome := do
  let definition ← files.definition options.file
  let ofFile ← limitsOf definition
  let context ← files.context options
  let abilities ← files.abilities options
  let runtime : Runtime := ⟨abilities.services, Catalog.builtin.registry, options.limits ofFile⟩
  return .ran (runtime.execute definition (.obj context))

def performPlan (files : Files) (options : ViewOptions) : Except CommandError Outcome := do
  let definition ← files.definition options.file
  let errors := Rules.standard.errors definition
  if errors.isEmpty then
    match PipelineOf.decode definition with
    | .ok pipeline => return .planned options.file pipeline.outline
    | .error e => throw (.definition e.toRunError)
  else return .refused errors

/-- Carries out a command. -/
def perform (files : Files) : Command → Except CommandError Outcome
  | .run options => performRun files options
  | .validate options => do return .checked options.file (← files.definition options.file)
  | .plan options => performPlan files options

/-- Whether the command was told to print JSON. -/
def json : Command → Bool
  | .run options => options.json
  | .validate options | .plan options => options.json

end Command

namespace Outcome

def succeeded : Outcome → Bool
  | .ran report => report.succeeded
  | .checked _ definition => Rules.standard.accepts definition
  | .refused _ => false
  | .planned .. => true

/-- How many lines of a result are shown. -/
def resultLines : Nat := 20

def reportLines (terminal : Terminal) (report : Report) (seconds : Double) : List String :=
  let ending := match report.error with
    | none => [Terminal.check ++ " Pipeline completed " ++ terminal.paint .green "successfully",
        "  Result:", terminal.value report.result resultLines]
    | some info => terminal.error info ::
        (if report.neverRan then [Terminal.note ++ " No steps were executed"] else [])
  "" :: ending ++ ["  Stats: " ++ terminal.stats report.stats seconds]

def problemLines (terminal : Terminal) (errors : List String) : List String :=
  errors.map fun error => "  " ++ terminal.paint .red error

def checkLines (terminal : Terminal) (file : String) (definition : Value) : List String :=
  let errors := Rules.standard.errors definition
  let warnings := (Rules.standard.warnings definition).map fun warning =>
    "  " ++ Terminal.caution ++ " " ++ terminal.paint .yellow warning
  let figures := match PipelineOf.decode definition with
    | .ok pipeline => ["  Steps: " ++ terminal.paint .cyan (toString pipeline.totalSteps),
        "  Max nesting: " ++ terminal.paint .cyan (toString pipeline.maxNesting)]
    | .error _ => []
  let verdict :=
    if errors.isEmpty then (Terminal.check ++ " Pipeline definition is valid!") :: figures
    else (Terminal.cross ++ " Validation failed with " ++ toString errors.length ++ " error(s):") ::
      problemLines terminal errors
  (Terminal.note ++ " Validating pipeline " ++ terminal.paint .bold file ++ "...") :: warnings ++ verdict

def outlineLines (terminal : Terminal) (file : String) (outline : Outline) : List String :=
  (Terminal.note ++ " Plan for " ++ terminal.paint .bold (outline.name.getD file) ++ " (" ++
      toString outline.totalSteps ++ " steps, nesting " ++ toString outline.maxNesting ++ ")") ::
    outline.entries.map fun entry => terminal.outlineEntry { entry with path := entry.path.text }

/-- What is printed for a reader. -/
def lines (terminal : Terminal) (seconds : Double) : Outcome → List String
  | .ran report => reportLines terminal report seconds
  | .checked file definition => checkLines terminal file definition
  | .refused errors =>
    (Terminal.cross ++ " Cannot plan an invalid pipeline:") :: problemLines terminal errors
  | .planned file outline => outlineLines terminal file outline

/-- What is printed if JSON is asked for: a value, where there is one. -/
def value? (seconds : Double) : Outcome → Option Value
  | .ran report => some (report.toValue seconds)
  | .checked _ definition => some (Rules.standard.report definition)
  | .refused _ => none
  | .planned _ outline => some outline.toValue

/-- What a command prints after some seconds. -/
def output (outcome : Outcome) (json : Bool) (terminal : Terminal) (seconds : Double) : List String :=
  match if json then outcome.value? seconds else none with
  | some v => [Json.pretty v]
  | none => outcome.lines terminal seconds

end Outcome

end Pipewright
