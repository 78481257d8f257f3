import Pipewright.Condition
import Pipewright.Limits
import Pipewright.Path

/-!
# Steps and pipelines

A pipeline is a list of steps, and some steps hold further lists of steps or a whole pipeline. `Step.fold`
computes along that tree with the nested lists labelled by where they stand; counting, nesting and the
outline of a pipeline are instances of it.
-/
namespace Pipewright

/-- A pipeline over a type of steps. -/
structure PipelineOf (σ : Type) where
  name : Option String
  description : Option String
  steps : List σ
  /-- The variable that is the result; without one it is the result of the last step. -/
  output : Option String
  /-- Limits that the definition suggests. -/
  limits : Option Limits

/-- A step of a pipeline. The `output` of a step is the variable that its result is bound to. -/
inductive Step where
  /-- Calls an ability. -/
  | ability (name : String) (input : Value) (output : Option String)
  /-- Applies a transform. -/
  | transform (operation : String) (input : Value) (params : List (String × Value)) (output : Option String)
  /-- Runs one of two lists in the same scope. -/
  | conditional (condition : Condition) (whenTrue whenFalse : List Step) (output : Option String)
  /-- Runs a list for every item of the input, each time in a copy of the scope. -/
  | loop (input : Value) (body : List Step) (itemVar : String) (indexVar collect output : Option String)
  /-- Runs every step of a list in a copy of the scope of its own. -/
  | parallel (branches : List Step) (output : Option String)
  /-- Runs a list as a whole or not at all, recovers from its failure, and runs another in any case. -/
  | tryCatch (attempt : List Step) (recovery : Option (List Step)) (always : List Step)
      (output : Option String)
  /-- Runs a pipeline in a scope made of the inputs. -/
  | subPipeline (pipeline : PipelineOf Step) (inputs : List (String × Value)) (output : Option String)

abbrev Pipeline := PipelineOf Step

/-- The kinds of step. -/
inductive StepKind where
  | ability
  | transform
  | conditional
  | loop
  | parallel
  | tryCatch
  | subPipeline
deriving DecidableEq

namespace StepKind

def all : List StepKind :=
  [.ability, .transform, .conditional, .loop, .parallel, .tryCatch, .subPipeline]

def name : StepKind → String
  | .ability => "ability"
  | .transform => "transform"
  | .conditional => "conditional"
  | .loop => "loop"
  | .parallel => "parallel"
  | .tryCatch => "try_catch"
  | .subPipeline => "sub_pipeline"

def parse? (name : String) : Option StepKind := all.find? fun kind => kind.name == name

end StepKind

namespace Step

def kind : Step → StepKind
  | .ability .. => .ability
  | .transform .. => .transform
  | .conditional .. => .conditional
  | .loop .. => .loop
  | .parallel .. => .parallel
  | .tryCatch .. => .tryCatch
  | .subPipeline .. => .subPipeline

def output : Step → Option String
  | .ability _ _ output | .transform _ _ _ output | .conditional _ _ _ output | .loop _ _ _ _ _ output
  | .parallel _ output | .tryCatch _ _ _ output | .subPipeline _ _ output => output

/-- The step lists inside a step, each with its path below the step. -/
def children : Step → List (Path × List Step)
  | .ability .. | .transform .. => []
  | .conditional _ whenTrue whenFalse _ => [([.key .thenSteps], whenTrue), ([.key .elseSteps], whenFalse)]
  | .loop _ body _ _ _ _ => [([.key .steps], body)]
  | .parallel branches _ => [([.key .steps], branches)]
  | .tryCatch attempt recovery always _ =>
    ([.key .trySteps], attempt) :: (recovery.map fun steps => ([.key .catchSteps], steps)).toList ++
      [([.key .finallySteps], always)]
  | .subPipeline pipeline _ _ => [([.key .pipeline, .key .steps], pipeline.steps)]

variable {α : Type}

mutual

/-- Computes from a step and the results of the steps in its lists. -/
def fold (f : Step → List (Path × List α) → α) : Step → α
  | .ability name input output => f (.ability name input output) []
  | .transform operation input params output => f (.transform operation input params output) []
  | .conditional condition whenTrue whenFalse output =>
    f (.conditional condition whenTrue whenFalse output)
      [([.key .thenSteps], foldAll f whenTrue), ([.key .elseSteps], foldAll f whenFalse)]
  | .loop input body itemVar indexVar collect output =>
    f (.loop input body itemVar indexVar collect output) [([.key .steps], foldAll f body)]
  | .parallel branches output => f (.parallel branches output) [([.key .steps], foldAll f branches)]
  | .tryCatch attempt recovery always output =>
    f (.tryCatch attempt recovery always output)
      (([.key .trySteps], foldAll f attempt) ::
        ((foldOption f recovery).map fun results => ([.key .catchSteps], results)).toList ++
        [([.key .finallySteps], foldAll f always)])
  | .subPipeline ⟨name, description, steps, result, limits⟩ inputs output =>
    f (.subPipeline ⟨name, description, steps, result, limits⟩ inputs output)
      [([.key .pipeline, .key .steps], foldAll f steps)]

def foldAll (f : Step → List (Path × List α) → α) : List Step → List α
  | [] => []
  | s :: rest => fold f s :: foldAll f rest

def foldOption (f : Step → List (Path × List α) → α) : Option (List Step) → Option (List α)
  | none => none
  | some steps => some (foldAll f steps)

end

/-- The sum of some counts. -/
def sumOf (counts : List Nat) : Nat := counts.foldr (· + ·) 0

/-- A step and all steps below it. -/
def totalSteps : Step → Nat := fold fun _ lists => 1 + sumOf (lists.map fun list => sumOf list.2)

/-- How many levels of lists a step holds, empty lists counted. -/
def nesting : Step → Nat := fold fun _ lists =>
  (lists.map fun list => 1 + (list.2.max?).getD 0).max?.getD 0

private def marked (mark : String) (there : Bool) : String := if there then mark else ""

/-- One line that tells what a step does. -/
def describe : Step → String
  | .ability name _ _ => "call " ++ name
  | .transform operation _ _ _ => "transform " ++ operation
  | .conditional _ whenTrue whenFalse _ => s!"if ({whenTrue.length} then / {whenFalse.length} else)"
  | .loop input _ itemVar _ _ _ => s!"for each ${itemVar} in " ++ input.describe
  | .parallel branches _ => s!"{branches.length} parallel branches"
  | .tryCatch _ recovery always _ =>
    "try" ++ marked " / catch" recovery.isSome ++ marked " / finally" (!always.isEmpty)
  | .subPipeline pipeline _ _ =>
    match pipeline.name with
    | some name => "sub-pipeline " ++ name
    | none => s!"sub-pipeline ({pipeline.steps.length} steps)"

end Step

namespace PipelineOf

/-- All steps of a pipeline, nested ones counted. -/
def totalSteps (pipeline : Pipeline) : Nat := Step.sumOf (pipeline.steps.map Step.totalSteps)

/-- The depth of the deepest step list; the top-level list is at depth zero. -/
def maxNesting (pipeline : Pipeline) : Nat := (pipeline.steps.map Step.nesting).max?.getD 0

end PipelineOf

end Pipewright
