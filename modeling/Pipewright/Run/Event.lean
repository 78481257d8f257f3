import Pipewright.Step

/-!
# Events

What a run tells about itself while it goes on. A location is a path, or the text of one.
-/
namespace Pipewright

inductive Event (Loc : Type) where
  | pipelineStarted (name : String) (totalSteps : Nat)
  | stepStarted (path : Loc) (kind : StepKind) (description : String) (depth : Nat)
  | stepCompleted (path : Loc) (kind : StepKind)
  /-- Told once, by the step in which the error arose. -/
  | stepFailed (path : Loc) (error : String)
  /-- A step at `path` goes on after the failure of a step inside it. -/
  | errorRecovered (path failedStep : Loc) (error : String)
  | pipelineCompleted (success : Bool) (stepsExecuted : Nat)

namespace Event

def map {α β : Type} (f : α → β) : Event α → Event β
  | .pipelineStarted name totalSteps => .pipelineStarted name totalSteps
  | .stepStarted path kind description depth => .stepStarted (f path) kind description depth
  | .stepCompleted path kind => .stepCompleted (f path) kind
  | .stepFailed path error => .stepFailed (f path) error
  | .errorRecovered path failedStep error => .errorRecovered (f path) (f failedStep) error
  | .pipelineCompleted success stepsExecuted => .pipelineCompleted success stepsExecuted

end Event

end Pipewright
