import Pipewright.Proofs.OrdinaryErrors
import Pipewright.Proofs.Polling
import Pipewright.Proofs.StepInduction
import Pipewright.Run.Runtime

/-!
# Properties of jobs that compose

A property of jobs composes if doing nothing has it, failing for an ordinary reason has it, reading the scope has it,
and going on from one job that has it to others has it. Such a property is carried through everything that the kinds of
step are built from but calls, transforms, branches and failures that are overcome.
-/
namespace Pipewright

namespace Job

variable {α β : Type}

/-- A property of jobs that is carried through their composition. -/
structure Composes (P : ∀ {α : Type}, Job α → Prop) : Prop where
  pure : ∀ {α : Type} (a : α), P (Pure.pure a : Job α)
  raise : ∀ {α : Type} (failure : Failure), failure.error.isFatal = false → P (ofExec (.raise failure) : Job α)
  scope : P (ofExec Exec.scope)
  bind : ∀ {α β : Type} {x : Job α} {next : α → Job β}, P x → (∀ a, P (next a)) → P (x >>= next)

theorem Composes.lift {P : ∀ {α : Type}, Job α → Prop} (law : Composes @P) {path : Path} {result : Except RunError α}
    (h : Ordinary result) : P (ofExec (.lift path result)) := by
  cases result with
  | ok a => exact law.pure a
  | error error => exact law.raise ⟨path, error⟩ (h error rfl)

/-- A job goes on with the value of an execution at once. -/
theorem ofExec_bind_of_ok {x : Exec α} {next : α → Job β} {scope : Scope} {meter : Meter} {a : α}
    (h : (x scope meter).outcome = .ok a) :
    (ofExec x >>= next) scope meter =
      (next a (x scope meter).scope (x scope meter).meter).after (x scope meter).log := by
  change Job.andThen (ofExec x) next scope meter = _
  rw [andThen, ofExec]
  generalize x scope meter = ran at h ⊢
  obtain ⟨outcome, final, after, log⟩ := ran
  cases h
  rfl

theorem ofExec_bind_of_error {x : Exec α} {next : α → Job β} {scope : Scope} {meter : Meter} {failure : Failure}
    (h : (x scope meter).outcome = .error failure) :
    (ofExec x >>= next) scope meter =
      .ended (.error failure, (x scope meter).scope) (x scope meter).meter (x scope meter).log := by
  change Job.andThen (ofExec x) next scope meter = _
  rw [andThen, ofExec]
  generalize x scope meter = ran at h ⊢
  obtain ⟨outcome, final, after, log⟩ := ran
  cases h
  exact congrArg (Progress.ended _ _) (List.append_nil _)

theorem refuse_bind (failure : Failure) (next : α → Job β) :
    (ofExec (.refuse failure) >>= next) = ofExec (.refuse failure) := rfl

/-- What handles the outcome of a job goes on where that has ended. -/
theorem settle_bind_apply (x : Job α) (next : Except Failure α → Job β) (scope : Scope) (meter : Meter) :
    (settle x >>= next) scope meter = (x scope meter).andThen fun ended meter => next ended.1 ended.2 meter := by
  change ((x scope meter).map _).andThen _ = _
  induction x scope meter with
  | ended => rfl
  | waiting meter log resume ih => exact congrArg (Progress.waiting meter log) (funext ih)

end Job

namespace Runtime

open Job

variable (runtime : Runtime)

theorem runSteps_eq_map (steps : List Step) : runtime.runSteps steps = steps.map runtime.runStep := by
  induction steps with
  | nil => rfl
  | cons s rest ih => rw [runSteps, List.map_cons, ih]

theorem runOption_eq_map (recovery : Option (List Step)) :
    runtime.runOption recovery = recovery.map runtime.runSteps := by
  cases recovery <;> rfl

/-- What holds of the meaning of each step of a list holds of each meaning in the list of the meanings. -/
theorem forall_mem_runSteps {runtime : Runtime} {steps : List Step} {P : LocatedJob → Prop}
    (h : ∀ s ∈ steps, P (runtime.runStep s)) : ∀ located ∈ runtime.runSteps steps, P located := by
  rw [runSteps_eq_map]
  exact List.forall_mem_map.mpr h

/-- What holds of a job of the list that an option has, if it has one, holds of that of its meanings. -/
theorem forall_eq_some_runOption {runtime : Runtime} {recovery : Option (List Step)} {f : List LocatedJob → Job Value}
    {P : Job Value → Prop} (h : ∀ steps, recovery = some steps → P (f (runtime.runSteps steps))) :
    ∀ x, (runtime.runOption recovery).map f = some x → P x := by
  intro x hx
  rw [runOption_eq_map, Option.map_map] at hx
  obtain ⟨steps, hsome, rfl⟩ := Option.map_eq_some_iff.mp hx
  exact h steps hsome

theorem exists_supervise (s : Step) : ∃ body, runtime.runStep s = runtime.supervise s body := by
  cases s with
  | subPipeline pipeline inputs output =>
    obtain ⟨name, description, steps, result, limits⟩ := pipeline
    exact ⟨_, rfl⟩
  | _ => exact ⟨_, rfl⟩

/-- A service that is there is called before anything else is done. -/
theorem call_of_some {name : String} {service : Service} (h : runtime.services.service? name = some service)
    (path : Path) (input : Value) (scope : Scope) (meter : Meter) :
    runtime.call path name input scope meter =
      (await path name (service meter.calls input) scope (meter.remember ⟨name, input⟩)).after
        [⟨.call ⟨name, input⟩, meter.remember ⟨name, input⟩⟩] := by
  rw [call, h]
  change (((await path name _ scope _).after _).after _).after _ = _
  simp only [Progress.after_after]
  rfl

section

variable {path : Path} {depth : Nat} {scope : Scope} {meter : Meter} {ran : Ran Unit}

/-- A step that is not admitted comes to nothing else. -/
theorem supervise_of_refused {s : Step} (body : LocatedJob) {failure : Failure}
    (hstart : runtime.admission.startStep s path depth scope meter = ran) (hrefused : ran.outcome = .error failure) :
    runtime.supervise s body path depth scope meter = .ended (.error failure, ran.scope) ran.meter ran.log := by
  subst hstart
  exact ofExec_bind_of_error hrefused

/-- A step that starts does what its kind does, and then ends. -/
theorem supervise_of_begun {s : Step} (body : LocatedJob)
    (hstart : runtime.admission.startStep s path depth scope meter = ran) (hbegun : ran.outcome = .ok ()) :
    runtime.supervise s body path depth scope meter =
      ((body path depth ran.scope ran.meter).andThen fun ended meter =>
        ofExec (Engine.endStep s path ended.1) ended.2 meter).after ran.log := by
  subst hstart
  rw [supervise, ofExec_bind_of_ok hbegun, settle_bind_apply]

end

section

variable {P : ∀ {α : Type}, Job α → Prop} (law : Job.Composes @P) (path : Path) (depth : Nat)

include law

theorem composes_sequence {steps : List LocatedJob} (h : ∀ s ∈ steps, ∀ i, P (s (path.index i) depth)) (i : Nat)
    (last : Value) : P (sequence path depth i last steps) := by
  induction steps generalizing i last with
  | nil => exact law.pure last
  | cons s rest ih =>
    exact law.bind (h s List.mem_cons_self i) fun v => ih (fun t ht => h t (List.mem_cons_of_mem _ ht)) (i + 1) v

/-- Either a list is nested too deep, or its steps run at a depth within the limit. -/
theorem composes_runList {steps : List LocatedJob}
    (hdeep : P (ofExec (.refuse ⟨path, .depthLimit runtime.limits.maxDepth⟩) : Job Value))
    (h : depth ≤ runtime.limits.maxDepth → ∀ s ∈ steps, ∀ i, P (s (path.index i) depth)) :
    P (runtime.runList steps path depth) := by
  rw [runList, Engine.checkDepth]
  split
  · rw [refuse_bind]
    exact hdeep
  next hd => exact law.bind (law.pure ()) fun _ => composes_sequence law path depth (h (Nat.not_lt.mp hd)) 0 .null

theorem composes_runUnlessEmpty {steps : List LocatedJob} (h : P (runtime.runList steps path depth)) :
    P (runtime.runUnlessEmpty steps path depth) := by
  rw [runUnlessEmpty]
  split
  · exact law.pure Value.null
  · exact h

theorem composes_runAbility (name : String) (input : Value) (h : ∀ input, P (runtime.call path name input)) :
    P (runtime.runAbility name input path depth) :=
  law.bind law.scope fun scope => law.bind (law.lift (input.resolve_ordinary scope)) h

theorem composes_runTransform (operation : String) (input : Value) (params : Fields Value)
    (h : ∀ data params, P (ofExec (.lift path (runtime.registry.run operation data params)))) :
    P (runtime.runTransform operation input params path depth) := by
  refine law.bind law.scope fun scope => law.bind (law.lift (input.resolve_ordinary scope)) fun data => ?_
  exact law.bind (law.lift (Value.resolveFields_ordinary scope params)) (h data)

theorem composes_runConditional (condition : Condition) {whenTrue whenFalse : List LocatedJob}
    (htrue : P (runtime.runList whenTrue (path.key .thenSteps) (depth + 1)))
    (hfalse : P (runtime.runList whenFalse (path.key .elseSteps) (depth + 1))) :
    P (runtime.runConditional condition whenTrue whenFalse path depth) := by
  refine law.bind law.scope fun scope => law.bind (law.lift (condition.evaluate_ordinary scope)) fun holds => ?_
  cases holds with
  | true => exact composes_runUnlessEmpty runtime law _ _ htrue
  | false => exact composes_runUnlessEmpty runtime law _ _ hfalse

theorem composes_iterate {body : Job Value} (h : ∀ inner, P (Job.within inner body)) (itemVar : String)
    (indexVar collect : Option String) (items : List (Value × Value)) :
    P (iterate body itemVar indexVar collect items) := by
  induction items with
  | nil => exact law.pure []
  | cons item rest ih =>
    exact law.bind law.scope fun scope => law.bind (h _) fun (_, _) => law.bind ih fun _ => law.pure _

theorem composes_runLoop (input : Value) {body : List LocatedJob} (itemVar : String) (indexVar collect : Option String)
    (h : ∀ inner, P (Job.within inner (runtime.runList body (path.key .steps) (depth + 1)))) :
    P (runtime.runLoop input body itemVar indexVar collect path depth) := by
  refine law.bind law.scope fun scope => ?_
  refine law.bind (law.lift ((input.resolve_ordinary scope).bind Engine.loopItems_ordinary)) fun items => ?_
  exact law.bind (composes_iterate law h itemVar indexVar collect items) fun _ => law.pure _

theorem composes_runNested {steps : List LocatedJob} (output : Option String) (inputs : Fields Value)
    (h : ∀ inner, P (Job.within inner (runtime.runList steps ((path.key .pipeline).key .steps) (depth + 1)))) :
    P (runtime.runNested steps output inputs path depth) := by
  refine law.bind law.scope fun scope => ?_
  refine law.bind (law.lift (Value.resolveFields_ordinary scope inputs)) fun inputs => ?_
  exact law.bind (h _) fun (_, _) => law.pure _

end

end Runtime

end Pipewright
