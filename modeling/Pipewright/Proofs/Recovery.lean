import Pipewright.Proofs.Frame

/-!
# Attempts are transactions

What a step that protects a list does to the scope. The writes of an attempt are kept if it succeeds and are gone
if it fails, for whatever reason: recovery starts from the scope as it was before, with the error bound, and leaves
the variable of the error with the binding that it had there.
-/
namespace Pipewright

/-- What a recovering list is told about an error. -/
theorem RunError.info_toValue (error : RunError) (step : String) :
    (error.info (some step)).toValue =
      .obj [("code", .str error.code), ("message", .str error.message), ("step", .str step),
        ("type", .str error.kind)] := by
  have hmessage : ¬ "type" < "message" := by decide
  have hcode : "code" < "message" := by decide
  have hafter : ¬ "step" < "code" ∧ ¬ "step" < "message" := by decide
  have hbefore : "step" < "type" := by decide
  have hne : "message" ≠ "type" ∧ "code" ≠ "step" ∧ "message" ≠ "step" := by decide
  simp only [ErrorInfo.toValue, RunError.info, Option.map_some, Option.toList_some, List.cons_append,
    List.nil_append, Fields.ofList, Fields.extend, List.foldl_cons, List.foldl_nil, Fields.insert, hmessage, hcode,
    hafter, hbefore, hne, if_true, if_false]

namespace Exec

variable {α : Type} {x : Exec α} {scope : Scope} {meter : Meter}

theorem transactional_of_ok {a : α} (h : (x scope meter).outcome = .ok a) :
    transactional x scope meter = x scope meter := by
  rw [transactional, h]

theorem transactional_of_error {failure : Failure} (h : (x scope meter).outcome = .error failure) :
    transactional x scope meter = ⟨.error failure, scope, (x scope meter).meter, (x scope meter).log⟩ := by
  simp only [transactional, h]

end Exec

namespace Engine

open Exec

section

variable {path : Path} {attempt : Exec Value} {recovery : Option (Exec Value)} {scope : Scope} {meter : Meter}

theorem recovering_of_ok {v : Value} (h : (attempt scope meter).outcome = .ok v) :
    recovering path attempt recovery scope meter = attempt scope meter := by
  have hkept := transactional_of_ok h
  have houtcome : (transactional attempt scope meter).outcome = .ok v := by rw [hkept, h]
  rw [recovering, settle_bind_of_eq (.ok v) (by rw [houtcome]; rfl), hkept, ← h]

theorem recovering_of_error {failure : Failure} (h : (attempt scope meter).outcome = .error failure)
    (hlost : failure.error.isFatal ∨ recovery = none) :
    recovering path attempt recovery scope meter =
      ⟨.error failure, scope, (attempt scope meter).meter, (attempt scope meter).log⟩ := by
  have hundone := transactional_of_error h
  have houtcome : (transactional attempt scope meter).outcome = .error failure := by rw [hundone]
  rw [recovering, settle_bind_of_eq (.error failure), hundone]
  rw [houtcome]
  rcases hlost with hfatal | rfl
  · cases recovery with
    | none => rfl
    | some => simp only [hfatal, if_true]; rfl
  · rfl

/-- Recovery goes on from the scope before the attempt, and the variable of the error is then as it was there. -/
theorem recovering_of_recovery {failure : Failure} (h : (attempt scope meter).outcome = .error failure)
    (hordinary : failure.error.isFatal = false) (recover : Exec Value) :
    recovering path attempt (some recover) scope meter =
      let tried := attempt scope meter
      let caught := recover (scope.set errorVariable (failure.error.info failure.path.text).toValue) tried.meter
      ⟨caught.outcome, caught.scope.restore errorVariable (scope.get? errorVariable), caught.meter,
        tried.log ++
          ⟨.tell (.errorRecovered path failure.path failure.error.message), tried.meter⟩ :: caught.log⟩ := by
  rw [recovering, settle_bind, transactional_of_error h]
  simp only [hordinary]
  rfl

theorem ensuring_of_fatal {x always : Exec Value} {failure : Failure}
    (h : (x scope meter).outcome = .error failure) (hfatal : failure.error.isFatal) :
    ensuring x always scope meter = x scope meter := by
  rw [ensuring, settle_bind_of_eq (.error failure), ← h]
  simp only [h, hfatal, if_true]
  rfl

/-- What runs in any case goes on from where the protected execution ended, and fails in its place if it fails. -/
theorem ensuring_of_ordinary {x always : Exec Value}
    (hordinary : ∀ failure, (x scope meter).outcome = .error failure → failure.error.isFatal = false) :
    ensuring x always scope meter =
      let ran := x scope meter
      let ended := always ran.scope ran.meter
      ⟨ended.outcome.bind fun _ => ran.outcome, ended.scope, ended.meter, ran.log ++ ended.log⟩ := by
  rw [ensuring, settle_bind]
  let after (ran : Ran Value) : Ran Value := { ran with log := (x scope meter).log ++ ran.log }
  cases h : (x scope meter).outcome with
  | ok v =>
    simp only [h]
    exact congrArg after (bind_ofOutcome always (.ok v) (x scope meter).scope (x scope meter).meter)
  | error failure =>
    simp only [h, hordinary failure h, Bool.false_eq_true, if_false]
    exact congrArg after (bind_ofOutcome always (.error failure) (x scope meter).scope (x scope meter).meter)

end

/-- The scope in which a step ends, from how its kind ended: the result is bound if there is one. -/
def boundScope (output : Option String) (ran : Ran Value) : Scope :=
  match ran.outcome with
  | .ok v => (output.map fun name => ran.scope.set name v).getD ran.scope
  | .error _ => ran.scope

theorem endStep_scope (s : Step) (path : Path) (ran : Ran Value) :
    (endStep s path ran.outcome ran.scope ran.meter).scope = boundScope s.output ran := by
  rw [boundScope]
  cases ran.outcome with
  | ok v =>
    rw [endStep]
    cases s.output <;> rfl
  | error failure =>
    rw [endStep]
    split <;> rfl

/-- The end of a step passes on how its kind ended. -/
@[simp] theorem endStep_outcome (s : Step) (path : Path) (outcome : Except Failure Value) (scope : Scope)
    (meter : Meter) : (endStep s path outcome scope meter).outcome = outcome := by
  cases outcome with
  | ok v =>
    rw [endStep]
    cases s.output <;> rfl
  | error failure =>
    rw [endStep]
    split <;> rfl

/-- A step that is not refused is its start, then what its kind does in the scope at hand, then its end. -/
theorem supervise_of_begun (engine : Engine) (s : Step) (body : Located) (path : Path) (depth : Nat) (scope : Scope)
    (meter : Meter) (h : (engine.startStep s path depth scope meter).outcome = .ok ()) :
    engine.supervise s body path depth scope meter =
      let begun := engine.startStep s path depth scope meter
      let own := body path depth scope begun.meter
      let ended := endStep s path own.outcome own.scope own.meter
      { ended with log := begun.log ++ (own.log ++ ended.log) } := by
  have hscope := leavesScope_startStep engine path depth s scope meter
  rw [supervise, bind_of_ok h, settle_bind, hscope]

/-- A step that is not refused ends in the scope of its kind, with its result bound. -/
theorem supervise_scope (engine : Engine) (s : Step) (body : Located) (path : Path) (depth : Nat) (scope : Scope)
    (meter : Meter) (h : (engine.startStep s path depth scope meter).outcome = .ok ()) :
    (engine.supervise s body path depth scope meter).scope =
      boundScope s.output (body path depth scope (engine.startStep s path depth scope meter).meter) := by
  rw [supervise_of_begun engine s body path depth scope meter h]
  exact endStep_scope s path _

theorem supervise_scope_of_refused (engine : Engine) (s : Step) (body : Located) (path : Path) (depth : Nat)
    (scope : Scope) (meter : Meter) {failure : Failure}
    (h : (engine.startStep s path depth scope meter).outcome = .error failure) :
    (engine.supervise s body path depth scope meter).scope = scope := by
  rw [supervise, bind_of_error h]
  exact leavesScope_startStep engine path depth s scope meter

/-- A step whose kind leaves the scope as it is binds its result, if it has one, and changes nothing else there. -/
theorem supervise_scope_of_leavesScope (engine : Engine) (s : Step) {body : Located} {path : Path} {depth : Nat}
    (hleaves : (body path depth).LeavesScope) (scope : Scope) (meter : Meter) :
    let whole := engine.supervise s body path depth scope meter
    whole.scope = boundScope s.output { whole with scope := scope } := by
  intro whole
  cases hbegun : (engine.startStep s path depth scope meter).outcome with
  | error failure =>
    have hfailed : whole.outcome = .error failure := congrArg Ran.outcome (bind_of_error hbegun)
    rw [boundScope, hfailed]
    exact supervise_scope_of_refused engine s body path depth scope meter hbegun
  | ok =>
    let own := body path depth scope (engine.startStep s path depth scope meter).meter
    have hown : own.scope = scope := hleaves scope _
    have houtcome : whole.outcome = own.outcome :=
      (congrArg Ran.outcome (supervise_of_begun engine s body path depth scope meter hbegun)).trans
        (endStep_outcome s path own.outcome own.scope own.meter)
    have hscope : whole.scope = boundScope s.output own :=
      supervise_scope engine s body path depth scope meter hbegun
    rw [hscope, boundScope, boundScope, houtcome, hown]

/-- A step that protects a list is a transaction on the scope. If the attempt succeeds, its scope is kept as it is.
If it fails, what follows starts from the scope before it, with nothing but the error bound for the recovering
list, and after that list the variable of the error is as it was before, present or absent, however it ended. -/
theorem runStep_tryCatch_scope (engine : Engine) (attempt : List Step) (recovery : Option (List Step))
    (always : List Step) (output : Option String) (path : Path) (depth : Nat) (scope : Scope) (meter : Meter) :
    let step : Step := .tryCatch attempt recovery always output
    let begun := engine.startStep step path depth scope meter
    let tried := engine.runList (engine.runSteps attempt) (path.key .trySteps) (depth + 1) scope begun.meter
    let caught (failure : Failure) (steps : List Step) :=
      engine.runList (engine.runSteps steps) (path.key .catchSteps) (depth + 1)
        (scope.set "error" (.obj [("code", .str failure.error.code), ("message", .str failure.error.message),
          ("step", .str failure.path.text), ("type", .str failure.error.kind)])) tried.meter
    let guarded := engine.runProtected (engine.runSteps attempt) (engine.runOption recovery) path depth scope
      begun.meter
    let ended := engine.runUnlessEmpty (engine.runSteps always) (path.key .finallySteps) (depth + 1) guarded.scope
      guarded.meter
    let whole := engine.runTryCatch (engine.runSteps attempt) (engine.runOption recovery) (engine.runSteps always)
      path depth scope begun.meter
    (∀ v, tried.outcome = .ok v → guarded = tried) ∧
    (∀ failure, tried.outcome = .error failure → failure.error.isFatal ∨ recovery = none →
      guarded = ⟨.error failure, scope, tried.meter, tried.log⟩) ∧
    (∀ failure steps, tried.outcome = .error failure → failure.error.isFatal = false → recovery = some steps →
      guarded.outcome = (caught failure steps).outcome ∧
      guarded.meter = (caught failure steps).meter ∧
      guarded.scope.get? "error" = scope.get? "error" ∧
      ∀ name, name ≠ "error" → guarded.scope.get? name = (caught failure steps).scope.get? name) ∧
    (∀ failure, guarded.outcome = .error failure → failure.error.isFatal → whole = guarded) ∧
    ((∀ failure, guarded.outcome = .error failure → failure.error.isFatal = false) →
      whole = ⟨ended.outcome.bind fun _ => guarded.outcome, ended.scope, ended.meter, guarded.log ++ ended.log⟩) ∧
    (begun.outcome = .ok () → (engine.runStep step path depth scope meter).scope = boundScope output whole) ∧
    (∀ failure, begun.outcome = .error failure → (engine.runStep step path depth scope meter).scope = scope) ∧
    ∀ failure, tried.outcome = .error failure → failure.error.isFatal →
      (engine.runStep step path depth scope meter).scope = scope := by
  intro step begun tried caught guarded ended whole
  have hlost (failure : Failure) (h : tried.outcome = .error failure)
      (hlost : failure.error.isFatal ∨ recovery = none) :
      guarded = ⟨.error failure, scope, tried.meter, tried.log⟩ := by
    refine recovering_of_error h (hlost.imp_right fun hnone => ?_)
    rw [hnone]
    rfl
  have hbound (h : begun.outcome = .ok ()) :
      (engine.runStep step path depth scope meter).scope = boundScope output whole :=
    supervise_scope engine step _ path depth scope meter h
  have hrefused (failure : Failure) (h : begun.outcome = .error failure) :
      (engine.runStep step path depth scope meter).scope = scope :=
    supervise_scope_of_refused engine step _ path depth scope meter h
  refine ⟨fun v h => recovering_of_ok h, hlost, fun failure steps h hordinary hsome => ?_,
    fun failure h hfatal => ensuring_of_fatal h hfatal, ensuring_of_ordinary, hbound, hrefused,
    fun failure h hfatal => ?_⟩
  · subst hsome
    have hguarded : guarded = _ := recovering_of_recovery h hordinary
      (engine.runList (engine.runSteps steps) (path.key .catchSteps) (depth + 1))
    rw [RunError.info_toValue] at hguarded
    rw [hguarded]
    exact ⟨rfl, rfl, Scope.get?_restore_self _ _ _, fun name hname => Scope.get?_restore_of_ne hname.symm _ _⟩
  · cases hbegun : begun.outcome with
    | error refusal => exact hrefused refusal hbegun
    | ok =>
      have hguarded := hlost failure h (.inl hfatal)
      have houtcome : guarded.outcome = .error failure := by rw [hguarded]
      have hwhole : whole = guarded := ensuring_of_fatal houtcome hfatal
      rw [hbound hbegun, hwhole, hguarded]
      rfl

/-- An attempt writes and fails, the recovering list writes to the variable of the error, and the binding that this
variable had before comes back. -/
theorem runStep_tryCatch_scope_restores :
    let engine : Engine := ⟨.none, .builtin, .standard⟩
    let attempt : List Step := [.transform "count" (.arr []) [] (some "x"), .ability "missing" .null none]
    let recover : List Step := [.transform "count" (.arr []) [] (some "error")]
    let scope : Scope := .ofFields [("error", .str "mine")]
    let begun := engine.startStep (.tryCatch attempt (some recover) [] none) Path.top 0 scope (.fresh .still)
    let tried := engine.runList (engine.runSteps attempt) (Path.top.key .trySteps) 1 scope begun.meter
    let guarded := engine.runProtected (engine.runSteps attempt) (some (engine.runSteps recover)) Path.top 0 scope
      begun.meter
    tried.scope.contains "x" ∧
      tried.outcome = .error ⟨(Path.top.key .trySteps).index 1, .unknownAbility "missing"⟩ ∧
      guarded.scope.get? "error" = some (.str "mine") := by
  intro engine attempt recover scope begun tried guarded
  have hwritten : tried.scope.contains "x" := by decide +kernel
  have hfailed : tried.outcome = .error ⟨(Path.top.key .trySteps).index 1, .unknownAbility "missing"⟩ := rfl
  have htransaction :=
    runStep_tryCatch_scope engine attempt (some recover) [] none Path.top 0 scope (.fresh .still)
  have hcaught := htransaction.2.2.1 _ recover hfailed rfl rfl
  exact ⟨hwritten, hfailed, hcaught.2.2.1.trans rfl⟩

end Engine

end Pipewright
