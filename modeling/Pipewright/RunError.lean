import Pipewright.Value

/-!
# What can go wrong

One type lists the causes for which a definition is refused or a run fails. Each has a text, the name of its
class and a machine-readable code. Only the three resource limits are fatal: nothing recovers from them.
-/
namespace Pipewright

/-- What an ability reports when it fails. -/
inductive AbilityError where
  | failed (code message : String)
  | invalidInput (message : String)
  | internal (message : String)
deriving DecidableEq

namespace AbilityError

def message : AbilityError → String
  | .failed _ message => message
  | .invalidInput message => "Invalid input: " ++ message
  | .internal message => "Internal error: " ++ message

def code : AbilityError → String
  | .failed code _ => code
  | .invalidInput _ => "invalid_input"
  | .internal _ => "ability_error"

end AbilityError

/-- Why a definition is refused or a step fails. -/
inductive RunError where
  /-- Structural problems of the definition, found before anything runs. -/
  | rejected (problems : List String)
  /-- The definition has no structural problem and still is no pipeline. -/
  | undecodable (message : String)
  | undefinedVariable (name : String)
  | unknownTransform (name : String)
  | transformInput (transform message : String)
  | unknownOperator (name : String)
  | unknownAbility (name : String)
  | abilityFailed (name : String) (cause : AbilityError)
  /-- A step got input of a shape that it cannot use. -/
  | stepInput (stepType message : String)
  | stepBudget (limit : Nat)
  | depthLimit (limit : Nat)
  | timeout (seconds : Nat)
  /-- A step failed and nothing recovered from it. -/
  | unrecovered (path : String) (cause : RunError)

namespace RunError

def message : RunError → String
  | .rejected problems => "Pipeline validation failed: " ++ "; ".intercalate problems
  | .undecodable message => "Invalid pipeline definition: " ++ message
  | .undefinedVariable name => s!"Variable '${name}' is not defined"
  | .unknownTransform name => s!"Unknown transform '{name}'"
  | .transformInput transform message => s!"Transform '{transform}' received invalid input: {message}"
  | .unknownOperator name => s!"Unknown condition operator '{name}'"
  | .unknownAbility name => s!"Ability '{name}' not found"
  | .abilityFailed name cause => s!"Ability '{name}' failed: " ++ cause.message
  | .stepInput stepType message => s!"Invalid input for {stepType} step: {message}"
  | .stepBudget limit => s!"Step limit of {limit} exceeded"
  | .depthLimit limit => s!"Depth limit of {limit} exceeded"
  | .timeout seconds => s!"Execution timed out after {seconds} seconds"
  | .unrecovered path cause => s!"Step {path} failed: " ++ cause.message

/-- The name of the class of an error. -/
def kind : RunError → String
  | .rejected _ | .undecodable _ => "ValidationError"
  | .undefinedVariable _ => "VariableNotFound"
  | .unknownTransform _ => "UnknownTransform"
  | .transformInput .. => "InvalidTransformInput"
  | .unknownOperator _ => "UnknownOperator"
  | .unknownAbility _ | .abilityFailed .. => "AbilityExecutionError"
  | .stepInput .. => "InvalidStepInput"
  | .stepBudget _ => "StepLimitExceeded"
  | .depthLimit _ => "DepthLimitExceeded"
  | .timeout _ => "TimeoutExceeded"
  | .unrecovered .. => "UnrecoverableStepError"

/-- The machine-readable code. A failure that nothing recovered from keeps the code of its cause. -/
def code : RunError → String
  | .rejected _ => "validation_failed"
  | .undecodable _ => "invalid_definition"
  | .undefinedVariable _ => "variable_not_found"
  | .unknownTransform _ => "unknown_transform"
  | .transformInput .. => "invalid_transform_input"
  | .unknownOperator _ => "unknown_operator"
  | .unknownAbility _ => "ability_not_found"
  | .abilityFailed _ cause => cause.code
  | .stepInput .. => "invalid_step_input"
  | .stepBudget _ => "step_limit_exceeded"
  | .depthLimit _ => "depth_limit_exceeded"
  | .timeout _ => "timeout_exceeded"
  | .unrecovered _ cause => cause.code

/-- Whether a resource limit is the cause; such an error ends the whole run. -/
def isFatal : RunError → Bool
  | .stepBudget _ | .depthLimit _ | .timeout _ => true
  | .unrecovered _ cause => cause.isFatal
  | _ => false

/-- The innermost cause. -/
def root : RunError → RunError
  | .unrecovered _ cause => cause.root
  | error => error

end RunError

/-- The details of an error as they are reported, and as a recovering step sees them. -/
structure ErrorInfo where
  message : String
  kind : String
  code : String
  step : Option String
deriving DecidableEq

namespace ErrorInfo

def toValue (info : ErrorInfo) : Value :=
  .obj (Fields.ofList (
    [("message", .str info.message), ("type", .str info.kind), ("code", .str info.code)] ++
      (info.step.map fun step => ("step", Value.str step)).toList))

end ErrorInfo

/-- The details of an error that a step raised, when the step is known. -/
def RunError.info (error : RunError) (step : Option String) : ErrorInfo :=
  ⟨error.message, error.kind, error.code, step⟩

end Pipewright
