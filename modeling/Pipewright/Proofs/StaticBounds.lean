import Pipewright.Proofs.Accounting
import Pipewright.Proofs.DepthReach

/-!
# What a pipeline says about its runs

Two numbers are computed of a pipeline before it runs: how deep its lists are nested, and how many steps it has. The
first is the depth that every run stays within. The second bounds the steps that a run executes if no step is a loop:
each step has its turn once at most, be it that it starts or that it is refused.
-/
namespace Pipewright

/-- Whether a step has its turn with an act: it starts, or it is refused for another reason than its depth. -/
def Act.isTurn : Act → Bool
  | .tell (.stepStarted ..) => true
  | .refuse failure => failure.error.kind != "DepthLimitExceeded"
  | _ => false

theorem Act.isTurn_of_not_begins {act : Act} (h : act.begins = false) : act.isTurn = false := by
  cases act with
  | call => rfl
  | refuse => cases h
  | tell event =>
    cases event with
    | stepStarted => cases h
    | _ => rfl

/-- Steps have their turn at most so often. -/
abbrev Exec.Takes {α : Type} (n : Nat) (x : Exec α) : Prop := x.AtMost Act.isTurn n

theorem Step.totalSteps_eq (s : Step) :
    s.totalSteps = 1 + sumOf (s.children.map fun list => sumOf (list.2.map totalSteps)) := by
  rw [totalSteps, fold_eq, List.map_map]
  rfl

theorem Step.totalSteps_tryCatch (attempt always : List Step) (recovery : Option (List Step))
    (output : Option String) : (Step.tryCatch attempt recovery always output).totalSteps =
      1 + (sumOf (attempt.map totalSteps) + sumOf ((recovery.getD []).map totalSteps) +
        sumOf (always.map totalSteps)) := by
  rw [totalSteps_eq]
  cases recovery <;> simp [children, sumOf, Nat.add_assoc]

/-- Neither the step itself nor one inside it is a loop. -/
def Step.isLoopless (s : Step) : Bool := s.everywhere fun t => t.kind ≠ .loop

/-- No step of the pipeline is a loop, at any level. -/
def PipelineOf.isLoopless (pipeline : Pipeline) : Bool := pipeline.everywhere fun s => s.kind ≠ .loop

namespace Engine

open Exec

variable (engine : Engine) (path : Path) (depth : Nat)

theorem takes_startStep (s : Step) : (engine.startStep s path depth).Takes 1 := by
  intro scope meter
  rcases startStep_cases engine path depth s scope meter with ⟨error, -, heq⟩ | ⟨-, heq⟩
  · rw [heq]
    exact List.countP_le_length
  · rw [heq]
    exact List.countP_le_length

theorem takes_supervise {s : Step} {body : Located} {n : Nat} (h : (body path depth).Takes n) :
    (engine.supervise s body path depth).Takes (1 + n) :=
  atMost_supervise engine path depth (fun _ => Act.isTurn_of_not_begins) (takes_startStep engine path depth s) h

theorem takes_runSteps {steps : List Step} (h : ∀ s ∈ steps, ∀ path depth,
      (engine.runStep s path depth).Takes s.totalSteps) :
    (engine.runList (engine.runSteps steps) path depth).Takes (Step.sumOf (steps.map Step.totalSteps)) := by
  rw [runSteps_eq_map, runList]
  refine atMost_bind_right (atMost_checkDepth engine path depth fun _ => rfl) fun _ => ?_
  exact atMost_sequence path depth (fun s hs i => h s hs _ _) 0 .null

theorem takes_runStepsUnlessEmpty {steps : List Step} (h : ∀ s ∈ steps, ∀ path depth,
      (engine.runStep s path depth).Takes s.totalSteps) :
    (engine.runUnlessEmpty (engine.runSteps steps) path depth).Takes (Step.sumOf (steps.map Step.totalSteps)) := by
  rw [runUnlessEmpty]
  split
  · exact atMost_pure Value.null
  · exact takes_runSteps engine path depth h

/-- Where nothing is repeated, a step and the steps inside it have their turn once each. -/
theorem takes_runStep (s : Step) : s.isLoopless → ∀ path depth, (engine.runStep s path depth).Takes s.totalSteps := by
  have law := atMost_composes Act.isTurn
  have hsort (act : Act) : act.begins = false → act.isTurn = false := Act.isTurn_of_not_begins
  -- What is known of the steps inside a loopless step, for each of its lists.
  have hinner {s : Step} (hloopless : s.isLoopless) {steps : List Step} (hlist : steps ∈ s.children.map Prod.snd)
      (ih : ∀ t ∈ steps, t.isLoopless → ∀ path depth, (engine.runStep t path depth).Takes t.totalSteps) :
      ∀ t ∈ steps, ∀ path depth, (engine.runStep t path depth).Takes t.totalSteps :=
    fun t ht => ih t ht (Step.everywhere_of_mem hloopless hlist t ht)
  induction s using Step.induction with
  | ability name input output =>
    intro _ path depth
    rw [runStep]
    refine takes_supervise engine path depth ?_
    exact composes_runAbility law engine path depth name input (atMost_call engine path hsort name)
  | transform operation input params output =>
    intro _ path depth
    rw [runStep]
    refine takes_supervise engine path depth ?_
    exact composes_runTransform law engine path depth operation input params
  | conditional condition whenTrue whenFalse output htrue hfalse =>
    intro hloopless path depth
    rw [runStep, Step.totalSteps_eq]
    refine takes_supervise engine path depth (atMost_runConditional engine path depth condition ?_ ?_)
    · have hsteps := hinner hloopless List.mem_cons_self htrue
      exact (takes_runStepsUnlessEmpty engine _ _ hsteps).mono (Nat.le_add_right _ _)
    · have hsteps := hinner hloopless (List.mem_cons_of_mem _ List.mem_cons_self) hfalse
      exact (takes_runStepsUnlessEmpty engine _ _ hsteps).mono (Nat.le_add_left _ _)
  | loop =>
    intro hloopless
    exact absurd rfl (of_decide_eq_true (Step.everywhere_iff.mp hloopless).1)
  | parallel branches output hbranches =>
    intro hloopless path depth
    have hsteps := hinner hloopless List.mem_cons_self hbranches
    rw [runStep, Step.totalSteps_eq, runSteps_eq_map]
    refine takes_supervise engine path depth (atMost_runParallel engine path depth _ (fun _ => rfl) ?_)
    exact atMost_settleBranches _ _ (fun s hs i => hsteps s hs _ _) 0
  | tryCatch attempt recovery always output hattempt hrecovery halways =>
    intro hloopless path depth
    have hattempt := hinner hloopless List.mem_cons_self hattempt
    have halways := hinner hloopless
      (List.mem_map_of_mem (List.mem_append_right _ List.mem_cons_self)) halways
    rw [runStep, Step.totalSteps_tryCatch]
    refine takes_supervise engine path depth (atMost_ensuring (atMost_recovering path hsort ?_ ?_) ?_)
    · exact takes_runSteps engine _ _ hattempt
    · refine forall_eq_some_runOption fun steps hsome => ?_
      subst hsome
      exact takes_runSteps engine _ _
        (hinner hloopless (List.mem_cons_of_mem _ List.mem_cons_self) (hrecovery steps rfl))
    · exact takes_runStepsUnlessEmpty engine _ _ halways
  | subPipeline pipeline inputs output hsteps =>
    intro hloopless path depth
    have hsteps := hinner hloopless List.mem_cons_self hsteps
    rw [Step.totalSteps_eq]
    obtain ⟨name, description, steps, result, limits⟩ := pipeline
    rw [runStep]
    refine takes_supervise engine path depth (atMost_runNested engine path depth result inputs ?_)
    exact (takes_runSteps engine _ _ hsteps).mono (Nat.le_add_right _ _)

/-- In a run without loops steps have their turn at most as often as the pipeline has steps. -/
theorem takes_runTop {pipeline : Pipeline} (hloopless : pipeline.isLoopless) (context : Value) (clock : Clock) :
    tally Act.isTurn (engine.runTop pipeline context clock).log ≤ pipeline.totalSteps :=
  have hsteps (s : Step) (hs : s ∈ pipeline.steps) :=
    takes_runStep engine s (PipelineOf.everywhere_iff.mp hloopless s hs)
  takes_runSteps engine Path.top 0 hsteps _ _

/-- A step that starts has its turn. -/
theorem length_startedTypes_le_tally (log : List Moment) : (startedTypes log).length ≤ tally Act.isTurn log := by
  rw [startedTypes, List.length_filterMap_eq_countP, tally]
  refine List.countP_mono_left fun moment _ hstarted => ?_
  obtain ⟨act, meter⟩ := moment
  cases act with
  | call | refuse => cases hstarted
  | tell event =>
    cases event with
    | stepStarted => rfl
    | _ => cases hstarted

/-- The budget refuses a step only after as many have started as it allows, so one more has had its turn. -/
theorem tally_of_spent {limits : Limits} {path : Path} {clock : Clock} {bytes : Nat} {log : List Moment}
    {after : Meter} (h : Grows limits path ((Meter.fresh clock).observe bytes) log after) {failure : Failure}
    (hrefusal : failure ∈ refusals log) (hkind : failure.error.kind = "StepLimitExceeded") :
    limits.maxSteps < tally Act.isTurn log := by
  obtain ⟨⟨act, meter⟩, hmoment, rfl⟩ := mem_refusals.mp hrefusal
  have hspent : limits.maxSteps ≤ meter.stats.stepsExecuted := by
    have hrefuses := h.refused hmoment rfl
    generalize failure.error = error at hkind hrefuses
    cases error with
    | stepBudget => exact hrefuses.2
    | depthLimit | timeout => simp [RunError.kind] at hkind
    | _ => exact hrefuses.elim
  obtain ⟨past, future, rfl⟩ := List.append_of_mem hmoment
  have hstarted : meter.stats.stepsExecuted = 0 + (startedTypes (past ++ [⟨.refuse failure, meter⟩])).length :=
    (h.upTo rfl).counts.steps
  have hrefused : (startedTypes (past ++ [⟨.refuse failure, meter⟩])).length = (startedTypes past).length := by
    rw [startedTypes_append]
    exact congrArg List.length (List.append_nil _)
  have hpast := length_startedTypes_le_tally past
  have hturns : tally Act.isTurn (past ++ ⟨.refuse failure, meter⟩ :: future) =
      tally Act.isTurn past + (tally Act.isTurn future + 1) := by
    rw [tally, List.countP_append, List.countP_cons, if_pos (by simp [Act.isTurn, hkind])]
    rfl
  omega

/-- The static measures of a pipeline bound every run of it. If its lists are nested no deeper than the limit of depth
allows, then no run exceeds that limit. If it has no loop, then a run executes no more steps than the pipeline has, and
a budget that has room for them is not exceeded. -/
theorem runPipeline_staticBounds (pipeline : Pipeline) (context : Value) (clock : Clock) :
    let report := engine.runPipeline pipeline context clock
    (pipeline.maxNesting ≤ engine.limits.maxDepth → ¬ report.Raises "DepthLimitExceeded") ∧
    (pipeline.isLoopless → report.stats.stepsExecuted ≤ pipeline.totalSteps ∧
      (pipeline.totalSteps ≤ engine.limits.maxSteps → ¬ report.Raises "StepLimitExceeded")) := by
  intro report
  have hgrows := growsAt_runTop engine pipeline context clock
  refine ⟨fun hnesting => ?_, fun hloopless => ?_⟩
  · exact runPipeline_shallow engine (Nat.le_trans pipeline.reach_le_maxNesting hnesting) context clock
  · have hturns := takes_runTop engine hloopless context clock
    refine ⟨?_, fun hbudget hraises => ?_⟩
    · have hsteps := hgrows.counts.steps
      have hstarted := length_startedTypes_le_tally (engine.runTop pipeline context clock).log
      have hstats : report.stats = _ := runPipeline_stats engine pipeline context clock
      rw [hstats, hsteps]
      exact Nat.le_trans (Nat.le_of_eq (Nat.zero_add _)) (Nat.le_trans hstarted hturns)
    · obtain ⟨failure, hrefusal, hkind⟩ := refusal_of_raises engine (by decide) hraises
      have hspent := tally_of_spent hgrows hrefusal hkind
      omega

/-- Both bounds are met by a run in which all three lists of a protecting step are entered; limits that are lower by
one are exceeded. -/
theorem runPipeline_staticBounds_met :
    let count : Step := .transform "count" (.arr []) [] none
    let nested : Step := .subPipeline ⟨none, none, [count], none, none⟩ [] none
    let pipeline : Pipeline :=
      ⟨none, none, [.tryCatch [.ability "missing" .null none] (some [nested]) [.parallel [] none] none], none, none⟩
    let report (maxSteps maxDepth : Nat) := runPipeline ⟨.none, .builtin, ⟨maxSteps, maxDepth, 300⟩⟩ pipeline .null
    (pipeline.maxNesting = 2 ∧ pipeline.totalSteps = 5) ∧
    (¬ (report 5 2).Raises "DepthLimitExceeded" ∧ (report 5 1).Raises "DepthLimitExceeded") ∧
    ¬ (report 5 2).Raises "StepLimitExceeded" ∧ (report 4 2).Raises "StepLimitExceeded" ∧
    (report 5 2).stats.stepsExecuted = pipeline.totalSteps := by
  intro count nested pipeline report
  have hnesting : pipeline.maxNesting = 2 := by decide +kernel
  have hsteps : pipeline.totalSteps = 5 := by decide +kernel
  have hloopless : pipeline.isLoopless := by decide +kernel
  obtain ⟨hdepth, hcount⟩ := runPipeline_staticBounds ⟨.none, .builtin, ⟨5, 2, 300⟩⟩ pipeline .null .still
  have hends {maxSteps maxDepth : Nat} {kind : String}
      (h : (report maxSteps maxDepth).error.map ErrorInfo.kind = some kind) : (report maxSteps maxDepth).Raises kind :=
    .inr (Option.map_eq_some_iff.mp h)
  refine ⟨⟨hnesting, hsteps⟩, ⟨hdepth (Nat.le_of_eq hnesting), hends (by decide +kernel)⟩, ?_⟩
  exact ⟨(hcount hloopless).2 (Nat.le_of_eq hsteps), hends (by decide +kernel), by decide +kernel⟩

end Engine

end Pipewright
