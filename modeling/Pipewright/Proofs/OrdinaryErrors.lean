import Pipewright.Run.Engine

/-!
# Ordinary errors

Only limits are fatal. Whatever the pure computations of a step go wrong with, an undefined variable, an
unknown operator, a transform that refuses its input, is ordinary: the steps around it can recover from it.
-/
namespace Pipewright

/-- A result that, if it is an error, is none that a limit raised. -/
def Ordinary {α : Type} (result : Except RunError α) : Prop :=
  ∀ error, result = .error error → error.isFatal = false

namespace Ordinary

variable {α β : Type}

theorem ok (a : α) : Ordinary (.ok a) := fun _ h => nomatch h

theorem error {error : RunError} (h : error.isFatal = false) : Ordinary (.error error : Except RunError α) :=
  fun _ he => Except.error.inj he ▸ h

theorem bind {result : Except RunError α} {next : α → Except RunError β} (h : Ordinary result)
    (hnext : ∀ a, Ordinary (next a)) : Ordinary (result >>= next) := by
  cases result with
  | error e => exact error (h e rfl)
  | ok a => exact hnext a

end Ordinary

theorem Reference.resolve_ordinary (scope : Scope) (r : Reference) : Ordinary (r.resolve scope) := by
  rw [resolve]
  split
  · exact Ordinary.ok _
  · exact Ordinary.error rfl

namespace Value

mutual

theorem resolve_ordinary (scope : Scope) : ∀ v : Value, Ordinary (v.resolve scope)
  | .str s => by
    rw [resolve]
    split
    · exact Reference.resolve_ordinary scope _
    · exact Ordinary.ok _
  | .arr items => by
    rw [resolve]
    exact (resolveItems_ordinary scope items).bind fun _ => Ordinary.ok _
  | .obj fields => by
    rw [resolve]
    exact (resolveFields_ordinary scope fields).bind fun _ => Ordinary.ok _
  | .null | .bool _ | .num _ => by
    rw [resolve]
    · exact Ordinary.ok _
    all_goals exact fun _ h => nomatch h

theorem resolveItems_ordinary (scope : Scope) : ∀ items : List Value, Ordinary (resolveItems scope items)
  | [] => Ordinary.ok _
  | v :: rest => by
    rw [resolveItems]
    exact (resolve_ordinary scope v).bind fun _ =>
      (resolveItems_ordinary scope rest).bind fun _ => Ordinary.ok _

theorem resolveFields_ordinary (scope : Scope) :
    ∀ fields : List (String × Value), Ordinary (resolveFields scope fields)
  | [] => Ordinary.ok _
  | (_, v) :: rest => by
    rw [resolveFields]
    exact (resolve_ordinary scope v).bind fun _ =>
      (resolveFields_ordinary scope rest).bind fun _ => Ordinary.ok _

end

end Value

theorem Operator.evaluate_ordinary (name : String) (a b : Value) : Ordinary (evaluate name a b) := by
  rw [evaluate]
  split
  · exact Ordinary.ok _
  · exact Ordinary.error rfl

theorem Comparison.evaluate_ordinary (scope : Scope) (c : Comparison) : Ordinary (c.evaluate scope) :=
  (Value.resolve_ordinary scope c.field).bind fun _ =>
    (Value.resolve_ordinary scope c.value).bind fun _ => Operator.evaluate_ordinary _ _ _

namespace Condition

mutual

theorem evaluate_ordinary (scope : Scope) : ∀ c : Condition, Ordinary (c.evaluate scope)
  | .all conditions => by rw [evaluate]; exact evaluateAll_ordinary scope conditions
  | .any conditions => by rw [evaluate]; exact evaluateAny_ordinary scope conditions
  | .negate condition => by
    rw [evaluate]
    exact (evaluate_ordinary scope condition).bind fun _ => Ordinary.ok _
  | .compare comparison => by rw [evaluate]; exact comparison.evaluate_ordinary scope
  | .list conditions => by rw [evaluate]; exact evaluateAll_ordinary scope conditions

theorem evaluateAll_ordinary (scope : Scope) :
    ∀ conditions : List Condition, Ordinary (evaluateAll scope conditions)
  | [] => Ordinary.ok _
  | c :: rest => by
    rw [evaluateAll]
    refine (evaluate_ordinary scope c).bind fun b => ?_
    cases b with
    | true => exact evaluateAll_ordinary scope rest
    | false => exact Ordinary.ok _

theorem evaluateAny_ordinary (scope : Scope) :
    ∀ conditions : List Condition, Ordinary (evaluateAny scope conditions)
  | [] => Ordinary.ok _
  | c :: rest => by
    rw [evaluateAny]
    refine (evaluate_ordinary scope c).bind fun b => ?_
    cases b with
    | true => exact Ordinary.ok _
    | false => exact evaluateAny_ordinary scope rest

end

end Condition

theorem Catalog.run_ordinary (catalog : Catalog) (name : String) (data : Value) (params : Transforms.Params) :
    Ordinary (catalog.run name data params) := by
  rw [run, Registry.run]
  split
  · exact Ordinary.error rfl
  next transform hget => exact catalog.ordinary (name, transform) (Fields.mem_of_get? hget) data params

theorem Engine.loopItems_ordinary (v : Value) : Ordinary (loopItems v) := by
  rw [loopItems.eq_def]
  split
  · exact Ordinary.ok _
  · exact Ordinary.ok _
  · exact Ordinary.error rfl

/-- What an ability reports is ordinary, whatever it is. -/
theorem abilityFailed_ordinary (name : String) (answer : Except AbilityError Value) :
    Ordinary (answer.mapError (.abilityFailed name)) := by
  cases answer with
  | ok v => exact Ordinary.ok v
  | error cause => exact Ordinary.error rfl

end Pipewright
