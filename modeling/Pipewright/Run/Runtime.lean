import Pipewright.Run.Report
import Pipewright.Run.Job

/-!
# Running steps against services

The meaning of each kind of step when what it calls may let it wait and any function may be a transform. Branches go on
beside each other: while one of them waits the others run. Where nothing waits, this is what an engine does.
-/
namespace Pipewright

/-- What steps run against. -/
structure Runtime where
  services : Services
  registry : Registry
  limits : Limits

/-- A job that knows where it stands. -/
abbrev LocatedJob := Path → Nat → Job Value

namespace Runtime

/-- An engine within the same limits that has nothing to call. Whether a step may start is for the limits to say. -/
def admission (runtime : Runtime) : Engine := ⟨.none, .empty, runtime.limits⟩

/-- Everything about a step but what its kind does: counting, events and the binding of its result. -/
def supervise (runtime : Runtime) (s : Step) (body : LocatedJob) : LocatedJob := fun path depth => do
  .ofExec (runtime.admission.startStep s path depth)
  let outcome ← Job.settle (body path depth)
  .ofExec (Engine.endStep s path outcome)

/-- Runs the steps of a list from position `i` on; the result is that of the last step. -/
def sequence (path : Path) (depth : Nat) (i : Nat) (last : Value) : List LocatedJob → Job Value
  | [] => pure last
  | s :: rest => do
    let v ← s (path.index i) depth
    sequence path depth (i + 1) v rest

/-- Runs a list of steps. -/
def runList (runtime : Runtime) (steps : List LocatedJob) : LocatedJob := fun path depth => do
  .ofExec (runtime.admission.checkDepth path depth)
  sequence path depth 0 .null steps

/-- Runs a list of steps unless it is empty. -/
def runUnlessEmpty (runtime : Runtime) (steps : List LocatedJob) : LocatedJob := fun path depth =>
  if steps.isEmpty then pure .null else runtime.runList steps path depth

/-- Waits for the answer to a call. -/
def await (path : Path) (name : String) : Reply → Job Value
  | .answer result => .ofExec (.lift path (result.mapError (.abilityFailed name)))
  | .pending later => fun scope meter =>
    .waiting meter [] fun meter => await path name (later meter.calls) scope meter

/-- Calls a service, and remembers the call. -/
def call (runtime : Runtime) (path : Path) (name : String) (input : Value) : Job Value :=
  match runtime.services.service? name with
  | none => .ofExec (.raise ⟨path, .unknownAbility name⟩)
  | some service => do
    let before := (← .ofExec Exec.meter).calls
    .ofExec (.count fun meter => meter.remember ⟨name, input⟩)
    .ofExec (.note (.call ⟨name, input⟩))
    await path name (service before input)

def runAbility (runtime : Runtime) (name : String) (input : Value) : LocatedJob := fun path _ => do
  let scope ← .ofExec Exec.scope
  let input ← .ofExec (.lift path (input.resolve scope))
  runtime.call path name input

def runTransform (runtime : Runtime) (operation : String) (input : Value) (params : Fields Value) : LocatedJob :=
  fun path _ => do
    let scope ← .ofExec Exec.scope
    let data ← .ofExec (.lift path (input.resolve scope))
    let params ← .ofExec (.lift path (Value.resolveFields scope params))
    .ofExec (.lift path (runtime.registry.run operation data params))

/-- Runs one of two lists in the scope at hand; an empty list is not entered. -/
def runConditional (runtime : Runtime) (condition : Condition) (whenTrue whenFalse : List LocatedJob) : LocatedJob :=
  fun path depth => do
    let scope ← .ofExec Exec.scope
    let holds ← .ofExec (.lift path (condition.evaluate scope))
    if holds then runtime.runUnlessEmpty whenTrue (path.key .thenSteps) (depth + 1)
    else runtime.runUnlessEmpty whenFalse (path.key .elseSteps) (depth + 1)

/-- Runs the body for every item, each time in a copy of the scope with the item bound. -/
def iterate (body : Job Value) (itemVar : String) (indexVar collect : Option String) :
    List (Value × Value) → Job (List Value)
  | [] => pure []
  | (index, item) :: rest => do
    let scope := (← .ofExec Exec.scope).set itemVar item
    let scope := match indexVar with
      | some name => scope.set name index
      | none => scope
    let (last, final) ← Job.within scope body
    let results ← iterate body itemVar indexVar collect rest
    return Engine.resultOf collect last final :: results

def runLoop (runtime : Runtime) (input : Value) (body : List LocatedJob) (itemVar : String)
    (indexVar collect : Option String) : LocatedJob := fun path depth => do
  let scope ← .ofExec Exec.scope
  let items ← .ofExec (.lift path (input.resolve scope >>= Engine.loopItems))
  let results ← iterate (runtime.runList body (path.key .steps) (depth + 1)) itemVar indexVar collect items
  return .arr results

/-- Starts every branch from position `i` on in a copy of the scope, also after one has failed, and goes on with all of
them beside each other. -/
def branchesFrom (path : Path) (depth : Nat) (scope : Scope) (i : Nat) :
    List LocatedJob → Meter → Progress (List Engine.BranchOutcome)
  | [], meter => .ended [] meter []
  | branch :: rest, meter =>
    let first := branch (path.index i) depth scope meter
    let others := branchesFrom path depth scope (i + 1) rest first.meter
    (first.beside others).map fun ended => (ended.1.1.map fun v => (v, ended.1.2)) :: ended.2

/-- Runs branches beside each other until all of them have ended. -/
def settleBranches (path : Path) (depth : Nat) (branches : List LocatedJob) : Job (List Engine.BranchOutcome) :=
  fun scope meter => (branchesFrom path depth scope 0 branches meter).map fun outcomes => (.ok outcomes, scope)

def runParallel (runtime : Runtime) (outputs : List (Option String)) (branches : List LocatedJob) : LocatedJob :=
  fun path depth => do
    let path := path.key .steps
    .ofExec (runtime.admission.checkDepth path (depth + 1))
    let outcomes ← settleBranches path (depth + 1) branches
    .ofExec (Engine.joinBranches outputs outcomes)

/-- Runs `attempt` as a whole or not at all. If it fails, and no limit is the cause, `recovery` goes on from
where the attempt began, with the error at hand. -/
def recovering (path : Path) (attempt : Job Value) (recovery : Option (Job Value)) : Job Value := do
  match ← Job.settle (Job.transactional attempt) with
  | .ok v => return v
  | .error failure =>
    match recovery with
    | none => .ofExec (.raise failure)
    | some recovery =>
      if failure.error.isFatal then .ofExec (.raise failure)
      else
        .ofExec (.emit (.errorRecovered path failure.path failure.error.message))
        Job.binding Engine.errorVariable (failure.error.info failure.path.text).toValue recovery

/-- Runs `always` after `x` unless a limit ended it. The outcome is that of `x` unless `always` fails. -/
def ensuring (x : Job Value) (always : Job Value) : Job Value := do
  let outcome ← Job.settle x
  match outcome with
  | .error failure =>
    if failure.error.isFatal then .ofExec (.raise failure)
    else
      let _ ← always
      .ofExec (.raise failure)
  | .ok v =>
    let _ ← always
    return v

/-- A protected list and the one that recovers from its failure. -/
def runProtected (runtime : Runtime) (attempt : List LocatedJob) (recovery : Option (List LocatedJob)) :
    LocatedJob := fun path depth =>
  recovering path (runtime.runList attempt (path.key .trySteps) (depth + 1))
    (recovery.map fun steps => runtime.runList steps (path.key .catchSteps) (depth + 1))

def runTryCatch (runtime : Runtime) (attempt : List LocatedJob) (recovery : Option (List LocatedJob))
    (always : List LocatedJob) : LocatedJob := fun path depth =>
  ensuring (runtime.runProtected attempt recovery path depth)
    (runtime.runUnlessEmpty always (path.key .finallySteps) (depth + 1))

/-- Runs the steps of a pipeline in a scope of their own, made of the inputs. -/
def runNested (runtime : Runtime) (steps : List LocatedJob) (output : Option String) (inputs : Fields Value) :
    LocatedJob := fun path depth => do
  let scope ← .ofExec Exec.scope
  let inputs ← .ofExec (.lift path (Value.resolveFields scope inputs))
  let (last, final) ← Job.within (.ofFields inputs)
    (runtime.runList steps ((path.key .pipeline).key .steps) (depth + 1))
  return Engine.resultOf output last final

mutual

/-- The meaning of a step. -/
def runStep (runtime : Runtime) : Step → LocatedJob
  | .ability name input output =>
    runtime.supervise (.ability name input output) (runtime.runAbility name input)
  | .transform operation input params output =>
    runtime.supervise (.transform operation input params output) (runtime.runTransform operation input params)
  | .conditional condition whenTrue whenFalse output =>
    runtime.supervise (.conditional condition whenTrue whenFalse output)
      (runtime.runConditional condition (runSteps runtime whenTrue) (runSteps runtime whenFalse))
  | .loop input body itemVar indexVar collect output =>
    runtime.supervise (.loop input body itemVar indexVar collect output)
      (runtime.runLoop input (runSteps runtime body) itemVar indexVar collect)
  | .parallel branches output =>
    runtime.supervise (.parallel branches output)
      (runtime.runParallel (branches.map Step.output) (runSteps runtime branches))
  | .tryCatch attempt recovery always output =>
    runtime.supervise (.tryCatch attempt recovery always output)
      (runtime.runTryCatch (runSteps runtime attempt) (runOption runtime recovery) (runSteps runtime always))
  | .subPipeline ⟨name, description, steps, result, limits⟩ inputs output =>
    runtime.supervise (.subPipeline ⟨name, description, steps, result, limits⟩ inputs output)
      (runtime.runNested (runSteps runtime steps) result inputs)

/-- The meanings of the steps of a list. -/
def runSteps (runtime : Runtime) : List Step → List LocatedJob
  | [] => []
  | s :: rest => runStep runtime s :: runSteps runtime rest

def runOption (runtime : Runtime) : Option (List Step) → Option (List LocatedJob)
  | none => none
  | some steps => some (runSteps runtime steps)

end

/-- Runs the steps of a pipeline on the variables that an object has as its entries, and waits for them to end. -/
def runTop (runtime : Runtime) (pipeline : Pipeline) (context : Value) (clock : Clock) : Ran Value :=
  let scope := Scope.ofValue context
  let meter := (Meter.fresh clock).observe scope.size
  (runtime.runList (runtime.runSteps pipeline.steps) Path.top 0 scope meter).finish

/-- Runs a pipeline, and tells of its start and its end. -/
def runPipeline (runtime : Runtime) (pipeline : Pipeline) (context : Value) (clock : Clock := .still) : Report :=
  .ofRan pipeline clock (runtime.runTop pipeline context clock)

/-- The rules that a definition has to keep to be run: the transforms at hand are the known ones. -/
def rules (runtime : Runtime) : Rules := ⟨Rules.standardNesting, some runtime.registry.names⟩

/-- Checks, decodes and runs a definition. -/
def execute (runtime : Runtime) (definition context : Value) (clock : Clock := .still) : Report :=
  .ofDefinition runtime.rules definition context fun pipeline => runtime.runPipeline pipeline context clock

end Runtime

/-- An engine as a runtime: its abilities are services that answer at once, and its catalog is a registry. -/
def Engine.runtime (engine : Engine) : Runtime := ⟨engine.abilities.services, engine.catalog.registry, engine.limits⟩

end Pipewright
