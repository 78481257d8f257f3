import Pipewright.Proofs.Recovery
import Pipewright.Proofs.Refusal

/-!
# What runs in any case

A step that protects a list comes to what the list came to, or to what recovered from its failure. The list that runs
in any case has the last word only by failing: it runs once, after all else and in the scope that was left, unless a
limit has put an end to everything; and its own value counts for nothing.
-/
namespace Pipewright

/-- Nothing in a log is about a place in a list. -/
def Avoids (list : Path) (log : List Moment) : Prop :=
  ∀ moment ∈ log, ∀ place, moment.act.place? = some place → ¬ list <+: place

namespace Avoids

variable {list : Path} {first second : List Moment}

theorem append (hfirst : Avoids list first) (hsecond : Avoids list second) : Avoids list (first ++ second) :=
  fun moment hmoment => (List.mem_append.mp hmoment).elim (hfirst moment) (hsecond moment)

/-- What is about a step is about none of its lists. -/
theorem of_step {step : Path} {log : List Moment} (part : Key)
    (h : ∀ moment ∈ log, moment.act.place? = some step) : Avoids (step.key part) log := by
  intro moment hmoment place hplace hin
  have hstep : step = place := Option.some.inj ((h moment hmoment).symm.trans hplace)
  have hlength := hin.length_le
  simp only [← hstep, Path.key, List.length_append, List.length_singleton] at hlength
  omega

theorem cons {step : Path} {moment : Moment} {log : List Moment} (part : Key) (h : moment.act.place? = some step)
    (hlog : Avoids (step.key part) log) : Avoids (step.key part) (moment :: log) :=
  (of_step part (List.forall_mem_singleton.mpr h)).append hlog

/-- What is about one list of a step is not about another. -/
theorem of_other {limits : Limits} {step : Path} {part other : Key} {before after : Meter} {log : List Moment}
    (h : Grows limits (step.key part) before log after) (hother : part ≠ other) : Avoids (step.key other) log :=
  fun _ hmoment _ hplace hin => hother (Path.key_unique (h.placed hmoment hplace) hin)

end Avoids

namespace Engine

open Exec

/-- What a protected list comes to, from how it ended and from what the recovering list, if there is one, comes to
after a failure. Only an ordinary failure is recovered from. -/
def protectedOutcome (tried : Ran Value) (caught : Option (Failure → Ran Value)) : Except Failure Value :=
  match tried.outcome with
  | .ok v => .ok v
  | .error failure =>
    match caught with
    | none => .error failure
    | some caught => if failure.error.isFatal then .error failure else (caught failure).outcome

section

variable (engine : Engine) (s : Step) (path : Path) (depth : Nat) (scope : Scope) (meter : Meter)

theorem startStep_place :
    ∀ moment ∈ (engine.startStep s path depth scope meter).log, moment.act.place? = some path := by
  intro moment hmoment
  rcases startStep_cases engine path depth s scope meter with ⟨error, -, heq⟩ | ⟨-, heq⟩
  · rw [heq] at hmoment
    obtain rfl := List.mem_singleton.mp hmoment
    rfl
  · rw [heq] at hmoment
    obtain rfl := List.mem_singleton.mp hmoment
    rfl

theorem endStep_place (outcome : Except Failure Value) :
    ∀ moment ∈ (endStep s path outcome scope meter).log, moment.act.place? = some path := by
  intro moment hmoment
  cases outcome with
  | ok v =>
    rw [endStep] at hmoment
    cases houtput : s.output with
    | none | some =>
      rw [houtput] at hmoment
      obtain rfl := List.mem_singleton.mp hmoment
      rfl
  | error failure =>
    rw [endStep] at hmoment
    split at hmoment
    · obtain rfl := List.mem_singleton.mp hmoment
      rfl
    · cases hmoment

end

section

variable (engine : Engine) (attempt always : List Step) (recovery : Option (List Step)) (path : Path) (depth : Nat)
  (scope : Scope) (meter : Meter)

/-- A list does what it may at its own place. -/
theorem grows_runSteps (steps : List Step) :
    let ran := engine.runList (engine.runSteps steps) path depth scope meter
    Grows engine.limits path meter ran.log ran.meter :=
  growsAt_runSteps engine steps path depth scope meter

/-- A list that is nested too deep fails for a limit, so one that fails for another reason is not. -/
theorem depth_le_of_ordinary {steps : List Located} {failure : Failure}
    (h : (engine.runList steps path depth scope meter).outcome = .error failure)
    (hordinary : failure.error.isFatal = false) : depth ≤ engine.limits.maxDepth := by
  refine Nat.le_of_not_lt fun hdeep => ?_
  rw [runList_of_deep hdeep] at h
  obtain rfl := Except.error.inj h
  cases hordinary

theorem runList_nil (hdepth : depth ≤ engine.limits.maxDepth) :
    engine.runList [] path depth scope meter = ⟨.ok .null, scope, meter, []⟩ := by
  rw [runList, checkDepth, if_neg (Nat.not_lt.mpr hdepth)]
  rfl

/-- A protected list succeeds; or it fails for good, which undoes what it wrote; or another one recovers from its
failure, with the error at hand. -/
theorem runProtected_cases :
    let tried := engine.runList (engine.runSteps attempt) (path.key .trySteps) (depth + 1) scope meter
    let guarded := engine.runProtected (engine.runSteps attempt) (engine.runOption recovery) path depth scope meter
    ((∃ v, tried.outcome = .ok v) ∧ guarded = tried) ∨
    (∃ failure, tried.outcome = .error failure ∧ (failure.error.isFatal ∨ recovery = none) ∧
      guarded = ⟨.error failure, scope, tried.meter, tried.log⟩) ∨
    ∃ failure steps, tried.outcome = .error failure ∧ failure.error.isFatal = false ∧ recovery = some steps ∧
      guarded =
        let caught := engine.runList (engine.runSteps steps) (path.key .catchSteps) (depth + 1)
          (scope.set errorVariable (failure.error.info failure.path.text).toValue) tried.meter
        ⟨caught.outcome, caught.scope.restore errorVariable (scope.get? errorVariable), caught.meter,
          tried.log ++
            ⟨.tell (.errorRecovered path failure.path failure.error.message), tried.meter⟩ :: caught.log⟩ := by
  intro tried guarded
  cases htried : tried.outcome with
  | ok v => exact .inl ⟨⟨v, rfl⟩, recovering_of_ok htried⟩
  | error failure =>
    right
    cases recovery with
    | none => exact .inl ⟨failure, rfl, .inr rfl, recovering_of_error htried (.inr rfl)⟩
    | some steps =>
      cases hfatal : failure.error.isFatal with
      | true => exact .inl ⟨failure, rfl, .inl hfatal, recovering_of_error htried (.inl hfatal)⟩
      | false => exact .inr ⟨failure, steps, rfl, hfatal, rfl, recovering_of_recovery htried hfatal _⟩

theorem runProtected_outcome :
    let tried := engine.runList (engine.runSteps attempt) (path.key .trySteps) (depth + 1) scope meter
    let caught (steps : List Step) (failure : Failure) :=
      engine.runList (engine.runSteps steps) (path.key .catchSteps) (depth + 1)
        (scope.set errorVariable (failure.error.info failure.path.text).toValue) tried.meter
    (engine.runProtected (engine.runSteps attempt) (engine.runOption recovery) path depth scope meter).outcome =
      protectedOutcome tried (recovery.map caught) := by
  intro tried caught
  rw [protectedOutcome]
  rcases runProtected_cases engine attempt recovery path depth scope meter with
    ⟨⟨v, htried⟩, hguarded⟩ | ⟨failure, htried, hlost, hguarded⟩ |
      ⟨failure, steps, htried, hordinary, rfl, hguarded⟩
  · rw [hguarded, htried]
  · rw [hguarded, htried]
    rcases hlost with hfatal | rfl
    · cases recovery <;> simp [hfatal]
    · rfl
  · rw [hguarded, htried]
    simp [hordinary, caught, tried]

/-- The list that runs in any case is no part of what it runs after. -/
theorem runProtected_avoids :
    Avoids (path.key .finallySteps)
      (engine.runProtected (engine.runSteps attempt) (engine.runOption recovery) path depth scope meter).log := by
  have hlist (steps : List Step) {part : Key} (hpart : part ≠ .finallySteps) (scope : Scope) (meter : Meter) :
      Avoids (path.key .finallySteps)
        (engine.runList (engine.runSteps steps) (path.key part) (depth + 1) scope meter).log :=
    .of_other (grows_runSteps engine (path.key part) (depth + 1) scope meter steps) hpart
  rcases runProtected_cases engine attempt recovery path depth scope meter with
    ⟨-, hguarded⟩ | ⟨failure, -, -, hguarded⟩ | ⟨failure, steps, -, -, -, hguarded⟩
  · rw [hguarded]
    exact hlist attempt (by decide) scope meter
  · rw [hguarded]
    exact hlist attempt (by decide) scope meter
  · rw [hguarded]
    exact (hlist attempt (by decide) scope meter).append (.cons .finallySteps rfl (hlist steps (by decide) _ _))

/-- A step that starts is its start, what its kind does, and its end, which tells of the step only. -/
theorem runStep_tryCatch_parts (output : Option String)
    (hbegun : (engine.startStep (.tryCatch attempt recovery always output) path depth scope meter).outcome = .ok ()) :
    let step : Step := .tryCatch attempt recovery always output
    let begun := engine.startStep step path depth scope meter
    let own := engine.runTryCatch (engine.runSteps attempt) (engine.runOption recovery) (engine.runSteps always) path
      depth scope begun.meter
    let whole := engine.runStep step path depth scope meter
    whole.outcome = own.outcome ∧ ∃ closing, whole.log = begun.log ++ (own.log ++ closing) ∧
      Avoids (path.key .finallySteps) begun.log ∧ Avoids (path.key .finallySteps) closing := by
  intro step begun own whole
  have hwhole : whole = _ := supervise_of_begun engine step _ path depth scope meter hbegun
  have hbegins := Avoids.of_step .finallySteps (startStep_place engine step path depth scope meter)
  have hcloses := Avoids.of_step .finallySteps (endStep_place step path own.scope own.meter own.outcome)
  rw [hwhole]
  exact ⟨endStep_outcome step path own.outcome _ _, _, rfl, hbegins, hcloses⟩

end

/-- What a step that protects a list comes to. A limit ends it at once. Otherwise the list that runs in any case, if it
has any steps, runs once, after the protected list and its recovery and in the scope that they left; if it fails, its
failure is that of the step, and if not, the step comes to what it would have come to without it. -/
theorem runStep_tryCatch_outcome (engine : Engine) (attempt : List Step) (recovery : Option (List Step))
    (always : List Step) (output : Option String) (path : Path) (depth : Nat) (scope : Scope) (meter : Meter)
    (hbegun : (engine.startStep (.tryCatch attempt recovery always output) path depth scope meter).outcome = .ok ()) :
    let step : Step := .tryCatch attempt recovery always output
    let begun := engine.startStep step path depth scope meter
    let tried := engine.runList (engine.runSteps attempt) (path.key .trySteps) (depth + 1) scope begun.meter
    let caught (steps : List Step) (failure : Failure) :=
      engine.runList (engine.runSteps steps) (path.key .catchSteps) (depth + 1)
        (scope.set errorVariable (failure.error.info failure.path.text).toValue) tried.meter
    let guarded := engine.runProtected (engine.runSteps attempt) (engine.runOption recovery) path depth scope
      begun.meter
    let ended := engine.runList (engine.runSteps always) (path.key .finallySteps) (depth + 1) guarded.scope
      guarded.meter
    let whole := engine.runStep step path depth scope meter
    guarded.outcome = protectedOutcome tried (recovery.map caught) ∧
    (∀ failure, tried.outcome = .error failure → failure.error.isFatal = false → recovery = some [] →
      guarded.outcome = .ok .null) ∧
    (∀ failure, guarded.outcome = .error failure → failure.error.isFatal →
      whole.outcome = .error failure ∧ Avoids (path.key .finallySteps) whole.log) ∧
    ((∀ failure, guarded.outcome = .error failure → failure.error.isFatal = false) →
      (always = [] → whole.outcome = guarded.outcome ∧ Avoids (path.key .finallySteps) whole.log) ∧
      (always ≠ [] →
        (∃ closing, whole.log = begun.log ++ guarded.log ++ ended.log ++ closing ∧
          Avoids (path.key .finallySteps) (begun.log ++ guarded.log) ∧ Avoids (path.key .finallySteps) closing) ∧
        (∀ failure, ended.outcome = .error failure → whole.outcome = .error failure) ∧
        ∀ v, ended.outcome = .ok v → whole.outcome = guarded.outcome)) := by
  intro step begun tried caught guarded ended whole
  let own := engine.runTryCatch (engine.runSteps attempt) (engine.runOption recovery) (engine.runSteps always) path
    depth scope begun.meter
  obtain ⟨houtcome, closing, hlog, hbegins, hcloses⟩ :=
    runStep_tryCatch_parts engine attempt always recovery path depth scope meter output hbegun
  have hguarded : guarded.outcome = protectedOutcome tried (recovery.map caught) :=
    runProtected_outcome engine attempt recovery path depth scope begun.meter
  have havoids : Avoids (path.key .finallySteps) guarded.log :=
    runProtected_avoids engine attempt recovery path depth scope begun.meter
  have hquiet (hsame : own.log = guarded.log) : Avoids (path.key .finallySteps) whole.log :=
    hlog ▸ hbegins.append ((hsame ▸ havoids).append hcloses)
  refine ⟨hguarded, fun failure htried hordinary hempty => ?_, fun failure herror hfatal => ?_, fun hordinary => ?_⟩
  · -- The protected list has been entered at this depth, so the empty list is not refused there.
    have hdepth := depth_le_of_ordinary engine _ _ _ _ htried hordinary
    rw [hguarded, protectedOutcome, htried, hempty, Option.map_some]
    simp only [hordinary, Bool.false_eq_true, if_false]
    exact congrArg Ran.outcome (runList_nil engine (path.key .catchSteps) (depth + 1) _ _ hdepth)
  · have hown : own = guarded := ensuring_of_fatal herror hfatal
    exact ⟨(houtcome.trans (congrArg Ran.outcome hown)).trans herror, hquiet (congrArg Ran.log hown)⟩
  · have hown : own = _ := ensuring_of_ordinary hordinary
    refine ⟨fun hempty => ?_, fun hsteps => ?_⟩
    · subst hempty
      have hvalue : own.outcome = guarded.outcome := (congrArg Ran.outcome hown).trans rfl
      exact ⟨houtcome.trans hvalue, hquiet ((congrArg Ran.log hown).trans (List.append_nil _))⟩
    · have hran : engine.runUnlessEmpty (engine.runSteps always) (path.key .finallySteps) (depth + 1) =
          engine.runList (engine.runSteps always) (path.key .finallySteps) (depth + 1) := by
        obtain ⟨first, rest, rfl⟩ := List.exists_cons_of_ne_nil hsteps
        rfl
      rw [hran] at hown
      have hended : whole.outcome = ended.outcome.bind fun _ => guarded.outcome :=
        houtcome.trans (congrArg Ran.outcome hown)
      have hownLog : own.log = guarded.log ++ ended.log := congrArg Ran.log hown
      refine ⟨⟨closing, ?_, hbegins.append havoids, hcloses⟩, fun failure herror => ?_, fun v hok => ?_⟩
      · have hwhole : whole.log = begun.log ++ (own.log ++ closing) := hlog
        rw [hwhole, hownLog]
        simp only [List.append_assoc]
      · rw [hended, herror]
        rfl
      · rw [hended, hok]
        rfl

/-- A list fails and an empty one recovers from it; what runs in any case runs once and fails in turn, which is then
the failure of the step; if it does not fail, the step succeeds. -/
theorem runStep_tryCatch_outcome_superseded :
    let engine : Engine := ⟨.none, .builtin, .standard⟩
    let idle : Step := .conditional (.list []) [] [] none
    let missing : Step := .ability "missing" .null none
    let run (always : List Step) :=
      engine.runStep (.tryCatch [missing] (some []) always none) Path.top 0 .empty (.fresh .still)
    (run [missing]).outcome = .error ⟨(Path.top.key .finallySteps).index 0, .unknownAbility "missing"⟩ ∧
    (run [idle]).outcome = .ok .null := by
  intro engine idle missing run
  have hordinary (failure : Failure) (h : Except.ok Value.null = .error failure) : failure.error.isFatal = false :=
    nomatch h
  have hruns (always : List Step) (hsteps : always ≠ []) := ((runStep_tryCatch_outcome engine [missing]
    (some []) always none Path.top 0 .empty (.fresh .still) rfl).2.2.2 hordinary).2 hsteps
  exact ⟨(hruns [missing] (List.cons_ne_nil _ _)).2.1 _ rfl, (hruns [idle] (List.cons_ne_nil _ _)).2.2 _ rfl⟩

end Engine

end Pipewright
