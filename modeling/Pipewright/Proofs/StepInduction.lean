import Pipewright.Run.Engine

/-!
# Induction over steps

A step is made of lists of steps, an option of a list and a pipeline. What is to be shown of all steps is
shown for each kind from the steps in its lists; the meaning of a list is the list of the meanings.
-/
namespace Pipewright

namespace Step

/-- A property that each kind of step inherits from the steps in its lists holds of every step. -/
@[elab_as_elim]
theorem induction {P : Step → Prop}
    (ability : ∀ name input output, P (.ability name input output))
    (transform : ∀ operation input params output, P (.transform operation input params output))
    (conditional : ∀ condition whenTrue whenFalse output, (∀ s ∈ whenTrue, P s) → (∀ s ∈ whenFalse, P s) →
      P (.conditional condition whenTrue whenFalse output))
    (loop : ∀ input body itemVar indexVar collect output, (∀ s ∈ body, P s) →
      P (.loop input body itemVar indexVar collect output))
    (parallel : ∀ branches output, (∀ s ∈ branches, P s) → P (.parallel branches output))
    (tryCatch : ∀ attempt recovery always output, (∀ s ∈ attempt, P s) →
      (∀ steps, recovery = some steps → ∀ s ∈ steps, P s) → (∀ s ∈ always, P s) →
      P (.tryCatch attempt recovery always output))
    (subPipeline : ∀ (pipeline : Pipeline) inputs output, (∀ s ∈ pipeline.steps, P s) →
      P (.subPipeline pipeline inputs output)) : ∀ s, P s := by
  intro s
  have inside (t : Step) (_ : sizeOf t < sizeOf s) : P t :=
    induction ability transform conditional loop parallel tryCatch subPipeline t
  cases s with
  | ability name input output => exact ability name input output
  | transform operation input params output => exact transform operation input params output
  | conditional condition whenTrue whenFalse output =>
    exact conditional condition whenTrue whenFalse output (fun t ht => inside t (by decreasing_tactic))
      fun t ht => inside t (by decreasing_tactic)
  | loop input body itemVar indexVar collect output =>
    exact loop input body itemVar indexVar collect output fun t ht => inside t (by decreasing_tactic)
  | parallel branches output => exact parallel branches output fun t ht => inside t (by decreasing_tactic)
  | tryCatch attempt recovery always output =>
    refine tryCatch attempt recovery always output (fun t ht => inside t (by decreasing_tactic)) ?_
      fun t ht => inside t (by decreasing_tactic)
    rintro steps rfl t ht
    exact inside t (by decreasing_tactic)
  | subPipeline pipeline inputs output =>
    refine subPipeline pipeline inputs output fun t ht => inside t ?_
    obtain ⟨name, description, steps, result, limits⟩ := pipeline
    decreasing_tactic
termination_by s => sizeOf s

/-- A property that a step inherits from the steps in its lists holds of every step. -/
theorem children_induction {P : Step → Prop}
    (h : ∀ s : Step, (∀ list ∈ s.children, ∀ t ∈ list.2, P t) → P s) (s : Step) : P s := by
  induction s using Step.induction with
  | ability | transform => exact h _ nofun
  | conditional condition whenTrue whenFalse output htrue hfalse =>
    refine h _ (List.forall_mem_cons.mpr ⟨htrue, List.forall_mem_singleton.mpr hfalse⟩)
  | loop input body itemVar indexVar collect output hbody => exact h _ (List.forall_mem_singleton.mpr hbody)
  | parallel branches output hbranches => exact h _ (List.forall_mem_singleton.mpr hbranches)
  | tryCatch attempt recovery always output hattempt hrecovery halways =>
    refine h _ fun list hlist => ?_
    cases recovery with
    | none =>
      revert list
      exact List.forall_mem_cons.mpr ⟨hattempt, List.forall_mem_singleton.mpr halways⟩
    | some steps =>
      revert list
      refine List.forall_mem_cons.mpr ⟨hattempt, List.forall_mem_cons.mpr ⟨?_, List.forall_mem_singleton.mpr halways⟩⟩
      exact hrecovery steps rfl
  | subPipeline pipeline inputs output hsteps => exact h _ (List.forall_mem_singleton.mpr hsteps)

section

variable {α : Type} (f : Step → List (Path × List α) → α)

theorem foldAll_eq_map (steps : List Step) : foldAll f steps = steps.map (fold f) := by
  induction steps with
  | nil => rfl
  | cons s rest ih => rw [foldAll, List.map_cons, ih]

/-- What is computed along a step is computed from its children. -/
theorem fold_eq (s : Step) :
    s.fold f = f s (s.children.map fun list => (list.1, list.2.map (fold f))) := by
  cases s with
  | subPipeline pipeline inputs output =>
    obtain ⟨name, description, steps, result, limits⟩ := pipeline
    simp only [fold, foldAll_eq_map]
    rfl
  | tryCatch attempt recovery always output =>
    cases recovery <;> simp only [fold, foldOption, foldAll_eq_map] <;> rfl
  | _ =>
    simp only [fold, foldAll_eq_map]
    rfl

end

/-- Whether something holds of a step and of every step inside it. -/
def everywhere (p : Step → Bool) : Step → Bool := fold fun s lists =>
  p s && lists.all fun list => list.2.all id

theorem everywhere_iff {p : Step → Bool} {s : Step} :
    s.everywhere p ↔ p s ∧ ∀ list ∈ s.children, ∀ t ∈ list.2, t.everywhere p := by
  rw [everywhere, fold_eq]
  simp

theorem everywhere_of_mem {p : Step → Bool} {s : Step} (h : s.everywhere p) {steps : List Step}
    (hsteps : steps ∈ s.children.map Prod.snd) : ∀ t ∈ steps, t.everywhere p := by
  obtain ⟨list, hlist, rfl⟩ := List.mem_map.mp hsteps
  exact (everywhere_iff.mp h).2 list hlist

end Step

namespace PipelineOf

/-- Whether something holds of every step of a pipeline, at all levels. -/
def everywhere (p : Step → Bool) (pipeline : Pipeline) : Bool := pipeline.steps.all (Step.everywhere p)

theorem everywhere_iff {p : Step → Bool} {pipeline : Pipeline} :
    pipeline.everywhere p ↔ ∀ s ∈ pipeline.steps, s.everywhere p := List.all_eq_true

end PipelineOf

namespace Engine

theorem runSteps_eq_map (engine : Engine) (steps : List Step) :
    engine.runSteps steps = steps.map engine.runStep := by
  induction steps with
  | nil => rfl
  | cons s rest ih => rw [runSteps, List.map_cons, ih]

theorem runOption_eq_map (engine : Engine) (recovery : Option (List Step)) :
    engine.runOption recovery = recovery.map engine.runSteps := by
  cases recovery <;> rfl

/-- What holds of the meaning of each step of a list holds of each meaning in the list of the meanings. -/
theorem forall_mem_runSteps {engine : Engine} {steps : List Step} {P : Located → Prop}
    (h : ∀ s ∈ steps, P (engine.runStep s)) : ∀ located ∈ engine.runSteps steps, P located := by
  rw [runSteps_eq_map]
  exact List.forall_mem_map.mpr h

/-- What holds of an execution of the list that an option has, if it has one, holds of that of its meanings. -/
theorem forall_eq_some_runOption {engine : Engine} {recovery : Option (List Step)}
    {f : List Located → Exec Value} {P : Exec Value → Prop}
    (h : ∀ steps, recovery = some steps → P (f (engine.runSteps steps))) :
    ∀ x, (engine.runOption recovery).map f = some x → P x := by
  intro x hx
  rw [runOption_eq_map, Option.map_map] at hx
  obtain ⟨steps, hsome, rfl⟩ := Option.map_eq_some_iff.mp hx
  exact h steps hsome

end Engine

end Pipewright
