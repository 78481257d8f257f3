import Pipewright.Run.Exec
import Pipewright.Transforms.Catalog

/-!
# Running steps

The meaning of each kind of step, built from the meanings of the steps inside it. The meaning of a step is
an execution at a path and a depth; lists of steps check their depth before anything of them runs, and each
step is counted before it starts.
-/
namespace Pipewright

/-- What steps run against. -/
structure Engine where
  abilities : Abilities
  catalog : Catalog
  limits : Limits

/-- An execution that knows where it stands. -/
abbrev Located := Path → Nat → Exec Value

namespace Engine

/-- The variable that a recovering list finds the error in. -/
def errorVariable : String := "error"

/-- Refuses a list that is nested too deep. -/
def checkDepth (engine : Engine) (path : Path) (depth : Nat) : Exec Unit :=
  if engine.limits.maxDepth < depth then .refuse ⟨path, .depthLimit engine.limits.maxDepth⟩ else pure ()

/-- Counts a step, or refuses it if the time or the budget of steps is used up. -/
def beginStep (engine : Engine) (path : Path) (kind : StepKind) : Exec Unit := do
  if engine.limits.timeIsUp (← Exec.seconds) then .refuse ⟨path, .timeout engine.limits.timeoutSecs⟩
  else
    let meter ← Exec.meter
    if engine.limits.maxSteps ≤ meter.stats.stepsExecuted then
      .refuse ⟨path, .stepBudget engine.limits.maxSteps⟩
    else .count fun meter => meter.record kind

/-- Notes the size of the scope. -/
def observe : Exec Unit := do
  let scope ← Exec.scope
  .count fun meter => meter.observe scope.size

/-- Binds the result of a step to its output. -/
def bindOutput (output : Option String) (v : Value) : Exec Unit :=
  match output with
  | some name => .write fun scope => scope.set name v
  | none => pure ()

/-- Counts a step and tells of its start. -/
def startStep (engine : Engine) (s : Step) : Path → Nat → Exec Unit := fun path depth => do
  engine.beginStep path s.kind
  .emit (.stepStarted path s.kind s.describe depth)

/-- Binds the result of a step, or tells of its failure: an error is told only by the step in which it
arose. -/
def endStep (s : Step) (path : Path) : Except Failure Value → Exec Value
  | .ok v => do
    bindOutput s.output v
    observe
    .emit (.stepCompleted path s.kind)
    return v
  | .error failure => do
    if failure.path = path then .emit (.stepFailed path failure.error.message)
    .raise failure

/-- Everything about a step but what its kind does: counting, events and the binding of its result. -/
def supervise (engine : Engine) (s : Step) (body : Located) : Located := fun path depth => do
  engine.startStep s path depth
  let outcome ← Exec.settle (body path depth)
  endStep s path outcome

/-- Runs the steps of a list from position `i` on; the result is that of the last step. -/
def sequence (path : Path) (depth : Nat) (i : Nat) (last : Value) : List Located → Exec Value
  | [] => pure last
  | s :: rest => do
    let v ← s (path.index i) depth
    sequence path depth (i + 1) v rest

/-- Runs a list of steps. -/
def runList (engine : Engine) (steps : List Located) : Located := fun path depth => do
  engine.checkDepth path depth
  sequence path depth 0 .null steps

/-- Runs a list of steps unless it is empty. -/
def runUnlessEmpty (engine : Engine) (steps : List Located) : Located := fun path depth =>
  if steps.isEmpty then pure .null else engine.runList steps path depth

/-- Calls an ability, and remembers the call. -/
def call (engine : Engine) (path : Path) (name : String) (input : Value) : Exec Value :=
  match engine.abilities.ability? name with
  | none => .raise ⟨path, .unknownAbility name⟩
  | some ability => do
    let before := (← Exec.meter).calls
    .count fun meter => meter.remember ⟨name, input⟩
    .note (.call ⟨name, input⟩)
    .lift path ((ability before input).mapError (.abilityFailed name))

def runAbility (engine : Engine) (name : String) (input : Value) : Located := fun path _ => do
  let scope ← Exec.scope
  let input ← Exec.lift path (input.resolve scope)
  engine.call path name input

def runTransform (engine : Engine) (operation : String) (input : Value) (params : Fields Value) : Located :=
  fun path _ => do
    let scope ← Exec.scope
    let data ← Exec.lift path (input.resolve scope)
    let params ← Exec.lift path (Value.resolveFields scope params)
    .lift path (engine.catalog.run operation data params)

/-- Runs one of two lists in the scope at hand; an empty list is not entered. -/
def runConditional (engine : Engine) (condition : Condition) (whenTrue whenFalse : List Located) : Located :=
  fun path depth => do
    let scope ← Exec.scope
    if ← Exec.lift path (condition.evaluate scope) then
      engine.runUnlessEmpty whenTrue (path.key .thenSteps) (depth + 1)
    else engine.runUnlessEmpty whenFalse (path.key .elseSteps) (depth + 1)

/-- The items that a loop goes over, each with its index or key. -/
def loopItems : Value → Except RunError (List (Value × Value))
  | .arr items => .ok (items.zipIdx.map fun (item, i) => (.nat i, item))
  | .obj fields => .ok (fields.map fun (key, item) => (.str key, item))
  | v => .error (.stepInput StepKind.loop.name ("input must be an array or object, got " ++ v.kind.name))

/-- The value of an execution, or of a variable of its scope at the end. -/
def resultOf (output : Option String) (last : Value) (scope : Scope) : Value :=
  match output with
  | some name => scope.getOrNull name
  | none => last

/-- Runs the body for every item, each time in a copy of the scope with the item bound. -/
def iterate (body : Exec Value) (itemVar : String) (indexVar collect : Option String) :
    List (Value × Value) → Exec (List Value)
  | [] => pure []
  | (index, item) :: rest => do
    let scope := (← Exec.scope).set itemVar item
    let scope := match indexVar with
      | some name => scope.set name index
      | none => scope
    let (last, final) ← Exec.within scope body
    let results ← iterate body itemVar indexVar collect rest
    return resultOf collect last final :: results

def runLoop (engine : Engine) (input : Value) (body : List Located) (itemVar : String)
    (indexVar collect : Option String) : Located := fun path depth => do
  let scope ← Exec.scope
  let items ← Exec.lift path (input.resolve scope >>= loopItems)
  let results ← iterate (engine.runList body (path.key .steps) (depth + 1)) itemVar indexVar collect items
  return .arr results

/-- How a branch ended: its result and scope, or its failure. -/
abbrev BranchOutcome := Except Failure (Value × Scope)

/-- Runs every branch from position `i` on in a copy of the scope of its own, also after one has failed. -/
def settleBranches (path : Path) (depth : Nat) (i : Nat) : List Located → Exec (List BranchOutcome)
  | [] => pure []
  | branch :: rest => do
    let outcome ← Exec.settle (Exec.fork (branch (path.index i) depth))
    let outcomes ← settleBranches path depth (i + 1) rest
    return outcome :: outcomes

/-- Takes the declared output of a branch that succeeded over into the scope. -/
def mergeOutput (scope : Scope) : Option String × BranchOutcome → Scope
  | (some name, .ok (_, final)) => scope.set name (final.getOrNull name)
  | _ => scope

/-- Takes the declared outputs of the branches that succeeded over into the scope, in order. -/
def mergeOutputs (outputs : List (Option String)) (outcomes : List BranchOutcome) (scope : Scope) : Scope :=
  (outputs.zip outcomes).foldl mergeOutput scope

/-- The failures of the branches that failed, in order. -/
def failuresOf (outcomes : List BranchOutcome) : List Failure :=
  outcomes.filterMap fun outcome =>
    match outcome with
    | .error failure => some failure
    | .ok _ => none

/-- The first fatal failure, or else the first failure, if any branch failed. -/
def branchFailure? (outcomes : List BranchOutcome) : Option Failure :=
  ((failuresOf outcomes).find? (·.error.isFatal)).or (failuresOf outcomes).head?

/-- Merges the outputs of branches that have ended; the outputs of those that succeeded are kept even if another
failed. -/
def joinBranches (outputs : List (Option String)) (outcomes : List BranchOutcome) : Exec Value := do
  .write (mergeOutputs outputs outcomes)
  match branchFailure? outcomes with
  | some failure => .raise failure
  | none => return .arr (outcomes.filterMap fun outcome => outcome.toOption.map Prod.fst)

/-- Runs branches one after the other as if they ran beside each other. -/
def runParallel (engine : Engine) (outputs : List (Option String)) (branches : List Located) : Located :=
  fun path depth => do
    let path := path.key .steps
    engine.checkDepth path (depth + 1)
    let outcomes ← settleBranches path (depth + 1) 0 branches
    joinBranches outputs outcomes

/-- Runs `attempt` as a whole or not at all. If it fails, and no limit is the cause, `recovery` goes on from
where the attempt began, with the error at hand. -/
def recovering (path : Path) (attempt : Exec Value) (recovery : Option (Exec Value)) : Exec Value := do
  match ← Exec.settle (Exec.transactional attempt) with
  | .ok v => return v
  | .error failure =>
    match recovery with
    | none => .raise failure
    | some recovery =>
      if failure.error.isFatal then .raise failure
      else
        .emit (.errorRecovered path failure.path failure.error.message)
        Exec.binding errorVariable (failure.error.info failure.path.text).toValue recovery

/-- Runs `always` after `x` unless a limit ended it. The outcome is that of `x` unless `always` fails. -/
def ensuring (x : Exec Value) (always : Exec Value) : Exec Value := do
  let outcome ← Exec.settle x
  match outcome with
  | .error failure =>
    if failure.error.isFatal then .raise failure
    else
      let _ ← always
      .raise failure
  | .ok v =>
    let _ ← always
    return v

/-- A protected list and the one that recovers from its failure. -/
def runProtected (engine : Engine) (attempt : List Located) (recovery : Option (List Located)) : Located :=
  fun path depth =>
    recovering path (engine.runList attempt (path.key .trySteps) (depth + 1))
      (recovery.map fun steps => engine.runList steps (path.key .catchSteps) (depth + 1))

def runTryCatch (engine : Engine) (attempt : List Located) (recovery : Option (List Located))
    (always : List Located) : Located := fun path depth =>
  ensuring (engine.runProtected attempt recovery path depth)
    (engine.runUnlessEmpty always (path.key .finallySteps) (depth + 1))

/-- Runs the steps of a pipeline in a scope of their own, made of the inputs. -/
def runNested (engine : Engine) (steps : List Located) (output : Option String) (inputs : Fields Value) :
    Located := fun path depth => do
  let scope ← Exec.scope
  let inputs ← Exec.lift path (Value.resolveFields scope inputs)
  let (last, final) ← Exec.within (.ofFields inputs)
    (engine.runList steps ((path.key .pipeline).key .steps) (depth + 1))
  return resultOf output last final

mutual

/-- The meaning of a step. -/
def runStep (engine : Engine) : Step → Located
  | .ability name input output =>
    engine.supervise (.ability name input output) (engine.runAbility name input)
  | .transform operation input params output =>
    engine.supervise (.transform operation input params output) (engine.runTransform operation input params)
  | .conditional condition whenTrue whenFalse output =>
    engine.supervise (.conditional condition whenTrue whenFalse output)
      (engine.runConditional condition (runSteps engine whenTrue) (runSteps engine whenFalse))
  | .loop input body itemVar indexVar collect output =>
    engine.supervise (.loop input body itemVar indexVar collect output)
      (engine.runLoop input (runSteps engine body) itemVar indexVar collect)
  | .parallel branches output =>
    engine.supervise (.parallel branches output)
      (engine.runParallel (branches.map Step.output) (runSteps engine branches))
  | .tryCatch attempt recovery always output =>
    engine.supervise (.tryCatch attempt recovery always output)
      (engine.runTryCatch (runSteps engine attempt) (runOption engine recovery) (runSteps engine always))
  | .subPipeline ⟨name, description, steps, result, limits⟩ inputs output =>
    engine.supervise (.subPipeline ⟨name, description, steps, result, limits⟩ inputs output)
      (engine.runNested (runSteps engine steps) result inputs)

/-- The meanings of the steps of a list. -/
def runSteps (engine : Engine) : List Step → List Located
  | [] => []
  | s :: rest => runStep engine s :: runSteps engine rest

def runOption (engine : Engine) : Option (List Step) → Option (List Located)
  | none => none
  | some steps => some (runSteps engine steps)

end

end Engine

end Pipewright
