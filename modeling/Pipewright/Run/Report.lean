import Pipewright.Definition.Decode
import Pipewright.Run.Engine
import Pipewright.Validation

/-!
# Running pipelines

A run of a whole pipeline, and the report that it ends in. A definition is checked and decoded first, and
one that is refused leaves the context as it was.
-/
namespace Pipewright

/-- What a run came to. After a failure the result is null and the context is what the top-level scope held
when the run stopped. -/
structure Report where
  result : Value
  context : Value
  stats : Stats
  error : Option ErrorInfo
  log : List Moment
  calls : List Call

namespace Report

/-- What the run told about itself. -/
def events (report : Report) : List (Event Path) := report.log.filterMap fun moment => moment.act.event?

def succeeded (report : Report) : Bool := report.error.isNone

/-- Whether the run failed before a step started. -/
def neverRan (report : Report) : Bool := !report.succeeded && !report.stats.hasRun

/-- The report on a definition that is refused. -/
def refused (error : RunError) (context : Value) : Report :=
  ⟨.null, context, Stats.none, some (error.info none), [], []⟩

/-- A report as a value, given how long the run took. -/
def toValue (report : Report) (seconds : Double) : Value :=
  .obj (Fields.ofList (
    [("success", .bool report.succeeded), ("result", report.result), ("context", report.context),
     ("stats", report.stats.toValue seconds)] ++ (report.error.map fun info => ("error", info.toValue)).toList))

end Report

namespace Failure

/-- The error that a run reports: a limit as it is, any other failure as one that nothing recovered from. -/
def escaped (failure : Failure) : RunError :=
  if failure.error.isFatal then failure.error else .unrecovered failure.path.text failure.error

end Failure

namespace Engine

/-- The name that a run goes by if its pipeline has none. -/
def anonymous : String := "pipeline"

/-- The log of a whole run, from that of its steps. -/
def wholeLog (pipeline : Pipeline) (clock : Clock) (success : Bool) (ran : Ran Value) : List Moment :=
  ⟨.tell (.pipelineStarted (pipeline.name.getD anonymous) pipeline.totalSteps), .fresh clock⟩ ::
    ran.log ++ [⟨.tell (.pipelineCompleted success ran.meter.stats.stepsExecuted), ran.meter⟩]

end Engine

namespace Report

open Engine

/-- Checks a definition and decodes it, and runs the pipeline that it defines. -/
def ofDefinition (rules : Rules) (definition context : Value) (run : Pipeline → Report) : Report :=
  let errors := rules.errors definition
  if errors.isEmpty then
    match PipelineOf.decode definition with
    | .ok pipeline => run pipeline
    | .error e => .refused e.toRunError context
  else .refused (.rejected errors) context

/-- The report on a run, from what its steps came to. It tells of its start and its end. -/
def ofRan (pipeline : Pipeline) (clock : Clock) (ran : Ran Value) : Report :=
  match ran.outcome with
  | .ok last =>
    ⟨resultOf pipeline.output last ran.scope, ran.scope.toValue, ran.meter.stats, none,
      wholeLog pipeline clock true ran, ran.meter.calls⟩
  | .error failure =>
    ⟨.null, ran.scope.toValue, ran.meter.stats, some (failure.escaped.info (some failure.path.text)),
      wholeLog pipeline clock false ran, ran.meter.calls⟩

variable (pipeline : Pipeline) (clock : Clock) (ran : Ran Value)

theorem ofDefinition_of_decode {rules : Rules} {definition : Value} {pipeline : Pipeline}
    (hdecode : PipelineOf.decode definition = .ok pipeline) (context : Value) (run : Pipeline → Report) :
    ofDefinition rules definition context run =
      if rules.accepts definition then run pipeline
      else .refused (.rejected (rules.errors definition)) context := by
  rw [ofDefinition, hdecode]
  rfl

theorem ofRan_log :
    (ofRan pipeline clock ran).log = wholeLog pipeline clock (ofRan pipeline clock ran).succeeded ran := by
  rw [ofRan]
  cases ran.outcome <;> rfl

theorem ofRan_stats : (ofRan pipeline clock ran).stats = ran.meter.stats := by
  rw [ofRan]
  cases ran.outcome <;> rfl

theorem ofRan_calls : (ofRan pipeline clock ran).calls = ran.meter.calls := by
  rw [ofRan]
  cases ran.outcome <;> rfl

variable {pipeline clock ran}

theorem ofRan_of_error {failure : Failure} (h : ran.outcome = .error failure) :
    ofRan pipeline clock ran =
      ⟨.null, ran.scope.toValue, ran.meter.stats, some (failure.escaped.info (some failure.path.text)),
        wholeLog pipeline clock false ran, ran.meter.calls⟩ := by
  rw [ofRan, h]

theorem exists_failure_of_error {info : ErrorInfo} (h : (ofRan pipeline clock ran).error = some info) :
    ∃ failure, ran.outcome = .error failure ∧ info = failure.escaped.info (some failure.path.text) := by
  rw [ofRan] at h
  cases houtcome : ran.outcome with
  | ok last =>
    rw [houtcome] at h
    cases h
  | error failure =>
    rw [houtcome] at h
    exact ⟨failure, rfl, (Option.some.inj h).symm⟩

/-- No run ends in an error of its definition. -/
theorem kind_ne_of_ofRan {info : ErrorInfo} (h : (ofRan pipeline clock ran).error = some info) :
    info.kind ≠ "ValidationError" := by
  obtain ⟨failure, -, rfl⟩ := exists_failure_of_error h
  obtain ⟨path, error⟩ := failure
  change (Failure.escaped ⟨path, error⟩).kind ≠ _
  cases error with
  | unrecovered place cause =>
    rw [Failure.escaped]
    split <;> simp [RunError.kind]
  | _ => simp [Failure.escaped, RunError.isFatal, RunError.kind]

end Report

namespace Engine

/-- Runs the steps of a pipeline on the variables that an object has as its entries. -/
def runTop (engine : Engine) (pipeline : Pipeline) (context : Value) (clock : Clock) : Ran Value :=
  let scope := Scope.ofValue context
  engine.runList (engine.runSteps pipeline.steps) Path.top 0 scope ((Meter.fresh clock).observe scope.size)

/-- Runs a pipeline, and tells of its start and its end. -/
def runPipeline (engine : Engine) (pipeline : Pipeline) (context : Value) (clock : Clock := .still) : Report :=
  .ofRan pipeline clock (engine.runTop pipeline context clock)

/-- The rules that a definition has to keep to be run: the transforms at hand are the known ones. -/
def rules (engine : Engine) : Rules := ⟨Rules.standardNesting, some engine.catalog.names⟩

/-- Checks, decodes and runs a definition. -/
def execute (engine : Engine) (definition context : Value) (clock : Clock := .still) : Report :=
  .ofDefinition engine.rules definition context fun pipeline => engine.runPipeline pipeline context clock

variable (engine : Engine) (pipeline : Pipeline) (context : Value) (clock : Clock)

theorem runPipeline_log : (engine.runPipeline pipeline context clock).log =
    wholeLog pipeline clock (engine.runPipeline pipeline context clock).succeeded
      (engine.runTop pipeline context clock) :=
  Report.ofRan_log pipeline clock _

theorem runPipeline_stats : (engine.runPipeline pipeline context clock).stats =
    (engine.runTop pipeline context clock).meter.stats :=
  Report.ofRan_stats pipeline clock _

theorem runPipeline_calls : (engine.runPipeline pipeline context clock).calls =
    (engine.runTop pipeline context clock).meter.calls :=
  Report.ofRan_calls pipeline clock _

theorem runPipeline_of_error {failure : Failure} (h : (engine.runTop pipeline context clock).outcome = .error failure) :
    engine.runPipeline pipeline context clock =
      let ran := engine.runTop pipeline context clock
      ⟨.null, ran.scope.toValue, ran.meter.stats, some (failure.escaped.info (some failure.path.text)),
        wholeLog pipeline clock false ran, ran.meter.calls⟩ :=
  Report.ofRan_of_error h

end Engine

end Pipewright
