import Pipewright.Proofs.Accounting
import Pipewright.Proofs.OwnFailures

/-!
# The reports on runs that fail

The report on a run that fails names what it failed at. That is a step which stands in the outline, has started and
has come to the error itself, and the error is wrapped once; or a limit is the cause, which is reported as it is, and
it is a step or a list of steps that was refused. A run that fails before any step starts has changed nothing.
-/
namespace Pipewright

namespace Fields

variable {α : Type}

theorem insert_of_forall_lt {name : String} {fields : Fields α} (h : ∀ entry ∈ fields, entry.1 < name) (a : α) :
    insert name a fields = fields ++ [(name, a)] := by
  induction fields with
  | nil => rfl
  | cons head rest ih =>
    have hhead : head.1 < name := h head List.mem_cons_self
    have hrest := ih fun entry hentry => h entry (List.mem_cons_of_mem _ hentry)
    rw [insert, if_neg (String.lt_asymm hhead), if_neg (String.ne_of_lt hhead), hrest, List.cons_append]

theorem extend_of_ordered {fields extra : Fields α} (h : Ordered (fields ++ extra)) :
    extend fields extra = fields ++ extra := by
  induction extra generalizing fields with
  | nil => exact (List.append_nil _).symm
  | cons entry rest ih =>
    have hlast : ∀ earlier ∈ fields, earlier.1 < entry.1 := fun earlier hearlier =>
      (List.pairwise_append.mp h).2.2 earlier hearlier entry List.mem_cons_self
    have hinsert : insert entry.1 entry.2 fields = fields ++ [entry] := insert_of_forall_lt hlast entry.2
    rw [List.append_cons] at h ⊢
    rw [extend, List.foldl_cons, hinsert]
    exact ih h

/-- Fields that are in order already are kept as they are. -/
theorem ofList_of_ordered {fields : Fields α} (h : Ordered fields) : ofList fields = fields := extend_of_ordered h

end Fields

/-- No step starts in a log if it tells of no start. -/
theorem startedTypes_eq_nil_iff (log : List Moment) :
    startedTypes log = [] ↔
      ∀ place kind description depth, .stepStarted place kind description depth ∉ eventsIn log := by
  rw [startedTypes, List.filterMap_eq_nil_iff]
  constructor
  · intro hidle place kind description depth htold
    obtain ⟨⟨act, meter⟩, hmoment, htells⟩ := List.mem_filterMap.mp htold
    have hnone := hidle _ hmoment
    cases act <;> cases htells
    cases hnone
  · intro hsilent ⟨act, meter⟩ hmoment
    cases act with
    | tell event =>
      have htold : event ∈ eventsIn log := List.mem_filterMap.mpr ⟨_, hmoment, rfl⟩
      cases event with
      | stepStarted place kind description depth => exact absurd htold (hsilent place kind description depth)
      | _ => rfl
    | _ => rfl

namespace Engine

open Exec

/-- In the log of a run, a step of the outline starts and comes to the error of a failure that names it. -/
def RaisesIn (engine : Engine) (pipeline : Pipeline) (log : List Moment) (failure : Failure) : Prop :=
  ∃ s depth scope meter, pipeline.top.HasStep s failure.path depth ∧
    s.outlineEntry failure.path depth ∈ pipeline.outline.entries ∧
    engine.StartsAndRaises s failure.path depth scope meter failure.error ∧
    (engine.runStep s failure.path depth scope meter).outcome = .error failure ∧
    (engine.runStep s failure.path depth scope meter).log <:+: log

/-- In the log of a run, a step of the outline is refused because the time or the budget of steps is used up. -/
def RefusesStepIn (engine : Engine) (pipeline : Pipeline) (log : List Moment) (failure : Failure) : Prop :=
  ∃ s depth meter, pipeline.top.HasStep s failure.path depth ∧
    s.outlineEntry failure.path depth ∈ pipeline.outline.entries ∧
    engine.limits.RefusesStep meter failure.error ∧ ⟨.refuse failure, meter.tick⟩ ∈ log

variable {engine : Engine} {pipeline : Pipeline} {log : List Moment} {failure : Failure}

theorem RaisesIn.ordinary (h : engine.RaisesIn pipeline log failure) : failure.error.isFatal = false := by
  obtain ⟨s, depth, scope, meter, -, -, hraises, -, -⟩ := h
  exact hraises.raises.ordinary

/-- The failure of a step that names it is its own error, or the step is refused. -/
theorem FailsIn.raises_or_refuses (h : engine.FailsIn pipeline.top log failure) :
    engine.RaisesIn pipeline log failure ∨ engine.RefusesStepIn pipeline log failure := by
  obtain ⟨s, depth, scope, meter, hstep, hfails, hlog⟩ := h
  have hentry : s.outlineEntry failure.path depth ∈ pipeline.outline.entries :=
    pipeline.entries_top ▸ hstep.outlineEntry_mem
  rcases runStep_own_failure s hfails with ⟨hrefuses, hrefused⟩ | hraises
  · refine .inr ⟨s, depth, meter, hstep, hentry, hrefuses, hlog.subset ?_⟩
    rw [hrefused]
    exact List.mem_cons_self
  · exact .inl ⟨s, depth, scope, meter, hstep, hentry, hraises, hfails, hlog⟩

/-- A step that does not start fails and leaves the scope as it is. -/
theorem runStep_of_idle {s : Step} {path : Path} {depth : Nat} {scope : Scope} {meter : Meter}
    (h : startedTypes (engine.runStep s path depth scope meter).log = []) :
    ∃ failure, (engine.runStep s path depth scope meter).outcome = .error failure ∧
      (engine.runStep s path depth scope meter).scope = scope := by
  obtain ⟨body, hrun⟩ : ∃ body, engine.runStep s = engine.supervise s body := exists_supervise engine s
  rcases startStep_cases engine path depth s scope meter with ⟨error, -, hstart⟩ | ⟨-, hstart⟩
  · refine ⟨⟨path, error⟩, ?_⟩
    rw [hrun, supervise, bind_of_error (by rw [hstart]), hstart]
    exact ⟨rfl, rfl⟩
  · rw [hrun, supervise_of_begun engine s body path depth scope meter (by rw [hstart]), hstart] at h
    cases h

theorem sequence_scope_of_idle {steps : List Step} {path : Path} {depth i : Nat} {last : Value} {scope : Scope}
    {meter : Meter}
    (h : startedTypes (sequence path depth i last (engine.runSteps steps) scope meter).log = []) :
    (sequence path depth i last (engine.runSteps steps) scope meter).scope = scope := by
  cases steps with
  | nil => rfl
  | cons s rest =>
    rw [runSteps, sequence] at h ⊢
    have hfirst : startedTypes (engine.runStep s (path.index i) depth scope meter).log = [] := by
      cases houtcome : (engine.runStep s (path.index i) depth scope meter).outcome with
      | ok v =>
        rw [bind_of_ok houtcome, startedTypes_append] at h
        exact (List.append_eq_nil_iff.mp h).1
      | error failure => rwa [bind_of_error houtcome] at h
    obtain ⟨failure, houtcome, hscope⟩ := runStep_of_idle hfirst
    rw [bind_of_error houtcome]
    exact hscope

variable (engine : Engine) (pipeline : Pipeline) (context : Value) (clock : Clock)

/-- A run in which no step starts leaves the scope as it is. -/
theorem runTop_scope_of_idle (h : startedTypes (engine.runTop pipeline context clock).log = []) :
    (engine.runTop pipeline context clock).scope = Scope.ofValue context := by
  rw [runTop, runList, checkDepth, if_neg (Nat.not_lt_zero _)] at h ⊢
  exact sequence_scope_of_idle h

theorem runTop_log_infix :
    (engine.runTop pipeline context clock).log <:+: (engine.runPipeline pipeline context clock).log := by
  rw [runPipeline_log, wholeLog]
  exact ⟨[_], [_], rfl⟩

/-- A run that fails has failed at a step or a list of its pipeline. -/
theorem runTop_failure (h : (engine.runTop pipeline context clock).outcome = .error failure) :
    engine.RaisesIn pipeline (engine.runPipeline pipeline context clock).log failure ∨
      engine.RefusesStepIn pipeline (engine.runPipeline pipeline context clock).log failure ∨
      engine.RefusesListIn pipeline.top (engine.runPipeline pipeline context clock).log failure := by
  have hin := runTop_log_infix engine pipeline context clock
  rcases (attributed_runTop engine pipeline context clock).ended failure h with hown | hfails | hrefused
  · cases hown
  · exact (hfails.mono hin).raises_or_refuses.imp_right .inl
  · exact .inr (.inr (hrefused.mono hin))

theorem neverRan_iff : (engine.runPipeline pipeline context clock).neverRan = true ↔
    (engine.runPipeline pipeline context clock).succeeded = false ∧
      startedTypes (engine.runPipeline pipeline context clock).log = [] := by
  have haccounts := accounts_runPipeline engine pipeline context clock
  rw [Report.neverRan, Stats.hasRun, haccounts.steps]
  simp

/-- A run that never ran called nothing and left the context as it was. -/
theorem untouched_of_neverRan (h : (engine.runPipeline pipeline context clock).neverRan = true) :
    (engine.runPipeline pipeline context clock).calls = [] ∧
      (engine.runPipeline pipeline context clock).context = (Scope.ofValue context).toValue := by
  obtain ⟨hfailed, hidle⟩ := (neverRan_iff engine pipeline context clock).mp h
  have haccounts := accounts_runPipeline engine pipeline context clock
  constructor
  · have hcalled := haccounts.called
    rw [haccounts.types, hidle] at hcalled
    exact List.eq_nil_of_length_eq_zero (Nat.le_zero.mp hcalled)
  · have hsteps : startedTypes (engine.runTop pipeline context clock).log = [] := by
      rw [runPipeline_log, wholeLog, startedTypes_append, List.append_eq_nil_iff] at hidle
      exact hidle.1
    have hscope := runTop_scope_of_idle engine pipeline context clock hsteps
    rw [← hscope, runPipeline, Report.ofRan]
    cases (engine.runTop pipeline context clock).outcome <;> rfl

/-- A run that fails reports no result. An error is reported once wrapped, with the place of the step that started and
came to it; a limit is reported as it is, with the place of the step or the list that was refused. The run never ran if
no step started, and then it called no ability and the context holds the variables that it was given. -/
theorem runPipeline_failed :
    let report := engine.runPipeline pipeline context clock
    (report.succeeded = false → report.result = .null ∧ ∃ place error,
      (engine.runTop pipeline context clock).outcome = .error ⟨place, error⟩ ∧
      (error.isFatal = false →
        report.error = some ⟨"Step " ++ place.text ++ " failed: " ++ error.message, "UnrecoverableStepError",
          error.code, some place.text⟩ ∧
        engine.RaisesIn pipeline report.log ⟨place, error⟩) ∧
      (error.isFatal = true →
        report.error = some ⟨error.message, error.kind, error.code, some place.text⟩ ∧
        (engine.RefusesStepIn pipeline report.log ⟨place, error⟩ ∨
          engine.RefusesListIn pipeline.top report.log ⟨place, error⟩))) ∧
    (report.neverRan = true ↔ report.succeeded = false ∧ ∀ place kind description depth,
      .stepStarted place kind description depth ∉ report.events) ∧
    (report.neverRan = true → report.calls = [] ∧ report.context = (Scope.ofValue context).toValue ∧
      ∀ fields, context = .obj fields → Fields.Ordered fields → report.context = context) := by
  intro report
  refine ⟨fun hfailed => ?_, ?_, fun hidle => ?_⟩
  · cases houtcome : (engine.runTop pipeline context clock).outcome with
    | ok last =>
      have hsucceeded : report.succeeded = true := by
        change Report.succeeded (engine.runPipeline pipeline context clock) = true
        rw [runPipeline, Report.ofRan, houtcome]
        rfl
      rw [hsucceeded] at hfailed
      cases hfailed
    | error failure =>
      have hreport : report = _ := runPipeline_of_error engine pipeline context clock houtcome
      have herror : report.error = some (failure.escaped.info (some failure.path.text)) := by rw [hreport]
      have hnull : report.result = .null := by rw [hreport]
      have hculprit := runTop_failure engine pipeline context clock houtcome
      obtain ⟨place, error⟩ := failure
      refine ⟨hnull, place, error, rfl, fun hordinary => ⟨?_, ?_⟩, fun hfatal => ⟨?_, ?_⟩⟩
      · rw [herror, Failure.escaped, if_neg (Bool.eq_false_iff.mp hordinary)]
        rfl
      · rcases hculprit with hraises | ⟨s, depth, meter, -, -, hrefuses, -⟩ | ⟨steps, depth, meter, -, -, hdeep, -⟩
        · exact hraises
        · cases hrefuses <;> cases hordinary
        · obtain rfl : error = _ := hdeep
          cases hordinary
      · rw [herror, Failure.escaped, if_pos hfatal]
        rfl
      · refine hculprit.resolve_left fun hraises => ?_
        have hordinary : error.isFatal = false := hraises.ordinary
        rw [hordinary] at hfatal
        cases hfatal
  · rw [neverRan_iff, startedTypes_eq_nil_iff]
    rfl
  · obtain ⟨hcalls, hcontext⟩ := untouched_of_neverRan engine pipeline context clock hidle
    refine ⟨hcalls, hcontext, fun fields hfields hordered => ?_⟩
    subst hfields
    exact hcontext.trans (congrArg Value.obj (Fields.ofList_of_ordered hordered))

/-- A recovering list fails in a pipeline inside it, and the report names the step there. Without a budget the same
pipeline never runs, and the first step is what the budget refuses. -/
theorem runPipeline_failed_recovering :
    let lost : Step := .transform "lost" .null [] none
    let nested : Step := .subPipeline ⟨none, none, [lost], none, none⟩ [] none
    let pipeline : Pipeline :=
      ⟨none, none, [.tryCatch [.ability "missing" .null none] (some [nested]) [] none], none, none⟩
    let engine (limits : Limits) : Engine := ⟨.none, .builtin, limits⟩
    let context : Value := .obj [("n", .null)]
    let report := (engine .standard).runPipeline pipeline context
    let refused := (engine ⟨0, 10, 300⟩).runPipeline pipeline context
    (report.result = .null ∧ ∃ place error, place.text = "steps[0].catch[0].pipeline.steps[0]" ∧
      report.error = some ⟨"Step " ++ place.text ++ " failed: " ++ error.message, "UnrecoverableStepError",
        error.code, some place.text⟩ ∧
      (engine .standard).RaisesIn pipeline report.log ⟨place, error⟩) ∧
    (∃ place error, place = Path.top.index 0 ∧
      refused.error = some ⟨error.message, error.kind, error.code, some place.text⟩ ∧
      ((engine ⟨0, 10, 300⟩).RefusesStepIn pipeline refused.log ⟨place, error⟩ ∨
        (engine ⟨0, 10, 300⟩).RefusesListIn pipeline.top refused.log ⟨place, error⟩)) ∧
    refused.neverRan = true ∧ refused.calls = [] ∧ refused.context = context := by
  intro lost nested pipeline engine context report refused
  obtain ⟨hreport, -, -⟩ := runPipeline_failed (engine .standard) pipeline context .still
  obtain ⟨hrefused, -, hidle⟩ := runPipeline_failed (engine ⟨0, 10, 300⟩) pipeline context .still
  have hnever : refused.neverRan = true := by decide +kernel
  refine ⟨?_, ?_, hnever, (hidle hnever).1, (hidle hnever).2.2 _ rfl (List.pairwise_singleton _ _)⟩
  · obtain ⟨hnull, place, error, houtcome, hordinary, -⟩ := hreport (by decide +kernel)
    have hended : ((engine .standard).runTop pipeline context .still).failure?.map
        (fun failure => (failure.path.text, failure.error.isFatal)) =
          some ("steps[0].catch[0].pipeline.steps[0]", false) := by decide +kernel
    rw [Ran.failure?_of_error houtcome] at hended
    obtain ⟨hplace, hfatal⟩ := Prod.mk.inj (Option.some.inj hended)
    exact ⟨hnull, place, error, hplace, hordinary hfatal⟩
  · obtain ⟨-, place, error, houtcome, -, hlimit⟩ := hrefused (by decide +kernel)
    have hended : ((engine ⟨0, 10, 300⟩).runTop pipeline context .still).failure?.map
        (fun failure => (failure.path, failure.error.isFatal)) = some (Path.top.index 0, true) := by decide +kernel
    rw [Ran.failure?_of_error houtcome] at hended
    obtain ⟨hplace, hfatal⟩ := Prod.mk.inj (Option.some.inj hended)
    exact ⟨place, error, hplace, hlimit hfatal⟩

end Engine

end Pipewright
