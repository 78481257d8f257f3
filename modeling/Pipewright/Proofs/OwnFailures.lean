import Pipewright.Proofs.Attribution

/-!
# What a step itself can go wrong with

A step that fails itself is refused before it starts, or what it evaluates in the scope that it is executed in goes
wrong: its input, its condition, the ability or the transform that it applies. The steps inside it have no part in
that, so a parallel step and a protecting one never fail themselves.
-/
namespace Pipewright

/-- Why a step is not admitted: the time is up, or the budget of steps is used up. -/
inductive Limits.RefusesStep (limits : Limits) (meter : Meter) : RunError → Prop where
  | late : limits.timeIsUp (meter.clock 0) = true → RefusesStep limits meter (.timeout limits.timeoutSecs)
  | spent : limits.maxSteps ≤ meter.stats.stepsExecuted → RefusesStep limits meter (.stepBudget limits.maxSteps)

/-- An error that what a step evaluates comes to, in a scope and after some calls of abilities. -/
inductive Engine.Raises (engine : Engine) (scope : Scope) (before : List Call) : Step → RunError → Prop where
  | abilityInput {name : String} {input : Value} {output : Option String} {error : RunError} :
    input.resolve scope = .error error → Raises engine scope before (.ability name input output) error
  | noAbility {name : String} {input : Value} {output : Option String} :
    engine.abilities.ability? name = none →
    Raises engine scope before (.ability name input output) (.unknownAbility name)
  | ability {name : String} {input v : Value} {output : Option String} {ability : Ability} {cause : AbilityError} :
    engine.abilities.ability? name = some ability → input.resolve scope = .ok v → ability before v = .error cause →
    Raises engine scope before (.ability name input output) (.abilityFailed name cause)
  | transformInput {operation : String} {input : Value} {params : Fields Value} {output : Option String}
    {error : RunError} : input.resolve scope = .error error →
    Raises engine scope before (.transform operation input params output) error
  | params {operation : String} {input : Value} {params : Fields Value} {output : Option String} {error : RunError} :
    Value.resolveFields scope params = .error error →
    Raises engine scope before (.transform operation input params output) error
  | transform {operation : String} {input data : Value} {params values : Fields Value} {output : Option String}
    {error : RunError} : input.resolve scope = .ok data → Value.resolveFields scope params = .ok values →
    engine.catalog.run operation data values = .error error →
    Raises engine scope before (.transform operation input params output) error
  | condition {condition : Condition} {whenTrue whenFalse : List Step} {output : Option String} {error : RunError} :
    condition.evaluate scope = .error error →
    Raises engine scope before (.conditional condition whenTrue whenFalse output) error
  | loopInput {input : Value} {body : List Step} {itemVar : String} {indexVar collect output : Option String}
    {error : RunError} : (input.resolve scope >>= loopItems) = .error error →
    Raises engine scope before (.loop input body itemVar indexVar collect output) error
  | inputs {pipeline : Pipeline} {inputs : Fields Value} {output : Option String} {error : RunError} :
    Value.resolveFields scope inputs = .error error →
    Raises engine scope before (.subPipeline pipeline inputs output) error

theorem Path.not_key_prefix {path : Path} {k : Key} : ¬ path.key k <+: path := fun h => (below_of_key h).2 rfl

namespace Exec

variable {α β : Type} {path : Path} {scope : Scope} {meter : Meter} {failure : Failure}

theorem outcome_lift_bind (path : Path) (result : Except RunError α) (next : α → Exec β) (scope : Scope)
    (meter : Meter) :
    ((Exec.lift path result >>= next) scope meter).outcome =
      match result with
      | .ok a => (next a scope meter).outcome
      | .error error => .error ⟨path, error⟩ := by
  cases result <;> rfl

theorem outcome_scope_bind (next : Scope → Exec β) (scope : Scope) (meter : Meter) :
    ((Exec.scope >>= next) scope meter).outcome = (next scope scope meter).outcome := rfl

theorem error_of_bind_pure {x : Exec α} {f : α → β}
    (h : ((x >>= fun a => pure (f a)) scope meter).outcome = .error failure) :
    (x scope meter).outcome = .error failure := by
  cases houtcome : (x scope meter).outcome with
  | ok a =>
    rw [bind_of_ok houtcome] at h
    cases h
  | error other =>
    rw [bind_of_error houtcome] at h
    exact congrArg _ (Except.error.inj h)

end Exec

/-- Neither a parallel step nor a protecting one fails itself. -/
theorem Trace.below_of_kind {s : Step} {path : Path} {depth : Nat} {told : List (Event Path)} {failure : Failure}
    (h : Trace (.kind s path depth) told (some failure)) (hkind : s.kind = .parallel ∨ s.kind = .tryCatch) :
    failure.path.Below path := by
  generalize hending : some failure = ending at h
  cases h with
  | own hparallel hprotecting => exact absurd hkind (not_or.mpr ⟨hparallel, hprotecting⟩)
  | tooDeepBranches =>
    obtain rfl := Option.some.inj hending
    exact Path.below_of_key List.prefix_rfl
  | parallel h => exact (h.endsAt hending.symm).1.widen (List.prefix_append _ _)
  | unensured h => exact (h.endsAt hending.symm).1
  | ensured hguarded _ hlast =>
    rcases Option.or_eq_some_iff.mp hending.symm with hlate | ⟨-, hearly⟩
    · exact Path.below_of_key (hlast.endsAt hlate).1
    · exact (hguarded.endsAt hearly).1
  | ability | skipped => cases hending
  | transform | whenTrue | whenFalse | loop | subPipeline => simp [Step.kind] at hkind

theorem Trace.not_own {s : Step} {path : Path} {depth : Nat} {x : Exec Value} (h : x.Tells (Trace (.kind s path depth)))
    (hkind : s.kind = .parallel ∨ s.kind = .tryCatch) {scope : Scope} {meter : Meter} {error : RunError} :
    (x scope meter).outcome ≠ .error ⟨path, error⟩ := by
  intro hfailed
  have htold := h scope meter
  rw [Ran.failure?_of_error hfailed] at htold
  exact (below_of_kind htold hkind).2 rfl

namespace Engine

open Exec

variable {engine : Engine} {path : Path} {depth : Nat} {scope : Scope} {meter : Meter} {error : RunError}
  {failure : Failure}

theorem prefix_of_runList {steps : List Step}
    (h : (engine.runList (engine.runSteps steps) path depth scope meter).outcome = .error failure) :
    path <+: failure.path :=
  ((tells_runList engine path depth steps scope meter).endsAt (Ran.failure?_of_error h)).1

theorem prefix_of_runUnlessEmpty {steps : List Step}
    (h : (engine.runUnlessEmpty (engine.runSteps steps) path depth scope meter).outcome = .error failure) :
    path <+: failure.path := by
  rw [runUnlessEmpty] at h
  split at h
  · cases h
  · exact prefix_of_runList h

theorem prefix_of_iterate {body : List Step} {itemVar : String} {indexVar collect : Option String}
    {items : List (Value × Value)}
    (h : (iterate (engine.runList (engine.runSteps body) path depth) itemVar indexVar collect items scope
      meter).outcome = .error failure) : path <+: failure.path :=
  ((tells_iterate engine path depth body itemVar indexVar collect items scope meter).endsAt
    (Ran.failure?_of_error h)).1

theorem raises_of_ability {name : String} {input : Value} {output : Option String}
    (h : (engine.runAbility name input path depth scope meter).outcome = .error ⟨path, error⟩) :
    engine.Raises scope meter.calls (.ability name input output) error := by
  rw [runAbility, outcome_scope_bind, outcome_lift_bind] at h
  cases hinput : input.resolve scope with
  | error e =>
    rw [hinput] at h
    cases h
    exact .abilityInput hinput
  | ok v =>
    rw [hinput] at h
    dsimp only at h
    cases hability : engine.abilities.ability? name with
    | none =>
      rw [call, hability] at h
      cases h
      exact .noAbility hability
    | some ability =>
      rw [call_of_some engine path hability] at h
      cases hanswer : ability meter.calls v with
      | ok answer =>
        simp only [hanswer] at h
        cases h
      | error cause =>
        simp only [hanswer] at h
        cases h
        exact .ability hability hinput hanswer

theorem raises_of_transform {operation : String} {input : Value} {params : Fields Value} {output : Option String}
    (h : (engine.runTransform operation input params path depth scope meter).outcome = .error ⟨path, error⟩) :
    engine.Raises scope meter.calls (.transform operation input params output) error := by
  rw [runTransform, outcome_scope_bind, outcome_lift_bind] at h
  cases hinput : input.resolve scope with
  | error e =>
    rw [hinput] at h
    cases h
    exact .transformInput hinput
  | ok data =>
    rw [hinput] at h
    dsimp only at h
    rw [outcome_lift_bind] at h
    cases hparams : Value.resolveFields scope params with
    | error e =>
      rw [hparams] at h
      cases h
      exact .params hparams
    | ok values =>
      rw [hparams] at h
      dsimp only at h
      cases hrun : engine.catalog.run operation data values with
      | ok v =>
        rw [hrun] at h
        cases h
      | error e =>
        rw [hrun] at h
        cases h
        exact .transform hinput hparams hrun

theorem raises_of_conditional {condition : Condition} {whenTrue whenFalse : List Step} {output : Option String}
    (h : (engine.runConditional condition (engine.runSteps whenTrue) (engine.runSteps whenFalse) path depth scope
      meter).outcome = .error ⟨path, error⟩) :
    engine.Raises scope meter.calls (.conditional condition whenTrue whenFalse output) error := by
  rw [runConditional, outcome_scope_bind, outcome_lift_bind] at h
  cases hcondition : condition.evaluate scope with
  | error e =>
    rw [hcondition] at h
    cases h
    exact .condition hcondition
  | ok holds =>
    rw [hcondition] at h
    cases holds with
    | true => exact absurd (prefix_of_runUnlessEmpty h) Path.not_key_prefix
    | false => exact absurd (prefix_of_runUnlessEmpty h) Path.not_key_prefix

theorem raises_of_loop {input : Value} {body : List Step} {itemVar : String} {indexVar collect output : Option String}
    (h : (engine.runLoop input (engine.runSteps body) itemVar indexVar collect path depth scope meter).outcome =
      .error ⟨path, error⟩) :
    engine.Raises scope meter.calls (.loop input body itemVar indexVar collect output) error := by
  rw [runLoop, outcome_scope_bind, outcome_lift_bind] at h
  cases hitems : input.resolve scope >>= loopItems with
  | error e =>
    rw [hitems] at h
    cases h
    exact .loopInput hitems
  | ok items =>
    rw [hitems] at h
    exact absurd (prefix_of_iterate (error_of_bind_pure h)) Path.not_key_prefix

theorem raises_of_nested {pipeline : Pipeline} {inputs : Fields Value} {output : Option String}
    (h : (engine.runNested (engine.runSteps pipeline.steps) pipeline.output inputs path depth scope meter).outcome =
      .error ⟨path, error⟩) : engine.Raises scope meter.calls (.subPipeline pipeline inputs output) error := by
  rw [runNested, outcome_scope_bind, outcome_lift_bind] at h
  cases hinputs : Value.resolveFields scope inputs with
  | error e =>
    rw [hinputs] at h
    cases h
    exact .inputs hinputs
  | ok values =>
    rw [hinputs] at h
    have hlist := prefix_of_runList (error_of_within (error_of_bind_pure h))
    exact absurd ((List.prefix_append _ _).trans hlist) Path.not_key_prefix

/-- What a step comes to by itself is an ordinary error. -/
theorem Raises.ordinary {before : List Call} {s : Step} (h : engine.Raises scope before s error) :
    error.isFatal = false := by
  cases h with
  | abilityInput h | transformInput h => exact Value.resolve_ordinary _ _ error h
  | noAbility | ability => rfl
  | params h | inputs h => exact Value.resolveFields_ordinary _ _ error h
  | transform _ _ h => exact Catalog.run_ordinary _ _ _ _ error h
  | condition h => exact Condition.evaluate_ordinary _ _ error h
  | loopInput h => exact (Value.resolve_ordinary _ _).bind loopItems_ordinary error h

/-- A step that is executed and fails itself: it is refused before it starts, or it starts, comes to an error in the
scope at hand and tells of it. -/
structure StartsAndRaises (engine : Engine) (s : Step) (path : Path) (depth : Nat) (scope : Scope) (meter : Meter)
    (error : RunError) : Prop where
  raises : engine.Raises scope meter.calls s error
  started : .stepStarted path s.kind s.describe depth ∈ eventsIn (engine.runStep s path depth scope meter).log
  told : .stepFailed path error.message ∈ eventsIn (engine.runStep s path depth scope meter).log

theorem own_failure_supervise {s : Step} {body : Located} (hrun : engine.runStep s = engine.supervise s body)
    (hbody : (body path depth scope (meter.tick.record s.kind)).outcome = .error ⟨path, error⟩ →
      engine.Raises scope meter.calls s error)
    (h : (engine.runStep s path depth scope meter).outcome = .error ⟨path, error⟩) :
    engine.limits.RefusesStep meter error ∧
        (engine.runStep s path depth scope meter).log = [⟨.refuse ⟨path, error⟩, meter.tick⟩] ∨
      engine.StartsAndRaises s path depth scope meter error := by
  have hrefused {other : RunError} (hstart : engine.startStep s path depth scope meter =
      ⟨.error ⟨path, other⟩, scope, meter.tick, [⟨.refuse ⟨path, other⟩, meter.tick⟩]⟩) :
      other = error ∧ (engine.runStep s path depth scope meter).log = [⟨.refuse ⟨path, error⟩, meter.tick⟩] := by
    have hwhole : engine.runStep s path depth scope meter =
        ⟨.error ⟨path, other⟩, scope, meter.tick, [⟨.refuse ⟨path, other⟩, meter.tick⟩]⟩ := by
      rw [hrun, supervise, bind_of_error (by rw [hstart]), hstart]
    rw [hwhole] at h ⊢
    cases h
    exact ⟨rfl, rfl⟩
  cases htime : engine.limits.timeIsUp (meter.clock 0) with
  | true =>
    obtain ⟨rfl, hlog⟩ := hrefused (startStep_of_late engine path depth s scope htime)
    exact .inl ⟨.late htime, hlog⟩
  | false =>
    by_cases hspent : engine.limits.maxSteps ≤ meter.stats.stepsExecuted
    · obtain ⟨rfl, hlog⟩ := hrefused (startStep_of_spent engine path depth s scope htime hspent)
      exact .inl ⟨.spent hspent, hlog⟩
    · have hstart := startStep_of_budget engine path depth s scope htime (Nat.lt_of_not_le hspent)
      have hwhole := supervise_of_begun engine s body path depth scope meter (by rw [hstart])
      rw [← hrun, hstart] at hwhole
      have hfailed : (body path depth scope (meter.tick.record s.kind)).outcome = .error ⟨path, error⟩ := by
        rw [hwhole] at h
        rwa [endStep_outcome] at h
      refine .inr ⟨hbody hfailed, ?_, ?_⟩
      · rw [hwhole]
        exact List.mem_cons_self
      · rw [hwhole]
        simp only [eventsIn_append, eventsIn_endStep, hfailed, if_true]
        exact List.mem_append_right _ (List.mem_append_right _ List.mem_cons_self)

/-- A step that is executed and fails itself is refused, or it starts, comes to the error and tells of it. -/
theorem runStep_own_failure (s : Step)
    (h : (engine.runStep s path depth scope meter).outcome = .error ⟨path, error⟩) :
    engine.limits.RefusesStep meter error ∧
        (engine.runStep s path depth scope meter).log = [⟨.refuse ⟨path, error⟩, meter.tick⟩] ∨
      engine.StartsAndRaises s path depth scope meter error := by
  cases s with
  | ability => exact own_failure_supervise rfl raises_of_ability h
  | transform => exact own_failure_supervise rfl raises_of_transform h
  | conditional => exact own_failure_supervise rfl raises_of_conditional h
  | loop => exact own_failure_supervise rfl raises_of_loop h
  | parallel branches output =>
    have htold : (engine.runParallel (branches.map Step.output) (engine.runSteps branches) path depth).Tells
        (Trace (.kind (.parallel branches output) path depth)) :=
      tells_runParallel engine path depth branches output
    exact own_failure_supervise rfl (fun hbody => absurd hbody (Trace.not_own htold (.inl rfl))) h
  | tryCatch attempt recovery always output =>
    have htold : (engine.runTryCatch (engine.runSteps attempt) (engine.runOption recovery) (engine.runSteps always)
        path depth).Tells (Trace (.kind (.tryCatch attempt recovery always output) path depth)) :=
      tells_runTryCatch engine path depth attempt recovery always output
    exact own_failure_supervise rfl (fun hbody => absurd hbody (Trace.not_own htold (.inr rfl))) h
  | subPipeline => exact own_failure_supervise rfl raises_of_nested h

end Engine

end Pipewright
