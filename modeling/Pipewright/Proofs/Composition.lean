import Pipewright.Proofs.OrdinaryErrors

/-!
# Properties of executions that compose

A property of executions composes if doing nothing has it, failing for an ordinary reason has it, reading the
scope has it, and going on from one execution that has it to others has it. Such a property is carried
through everything that the kinds of step are built from; what is left to show of each is how it treats limits,
events and failures that are overcome. A relation between the executions of two engines is carried through in the
same way, and a property is the case of it that looks at one engine only.
-/
namespace Pipewright

namespace Exec

variable {α β : Type}

theorem bind_of_ok {x : Exec α} {next : α → Exec β} {scope : Scope} {meter : Meter} {a : α}
    (h : (x scope meter).outcome = .ok a) :
    (x >>= next) scope meter =
      { next a (x scope meter).scope (x scope meter).meter with
        log := (x scope meter).log ++ (next a (x scope meter).scope (x scope meter).meter).log } := by
  change andThen x next scope meter = _
  rw [andThen, h]

theorem bind_of_error {x : Exec α} {next : α → Exec β} {scope : Scope} {meter : Meter} {failure : Failure}
    (h : (x scope meter).outcome = .error failure) :
    (x >>= next) scope meter =
      ⟨.error failure, (x scope meter).scope, (x scope meter).meter, (x scope meter).log⟩ := by
  change andThen x next scope meter = _
  rw [andThen, h]

theorem settle_bind (x : Exec α) (next : Except Failure α → Exec β) (scope : Scope) (meter : Meter) :
    (settle x >>= next) scope meter =
      { next (x scope meter).outcome (x scope meter).scope (x scope meter).meter with
        log := (x scope meter).log ++
          (next (x scope meter).outcome (x scope meter).scope (x scope meter).meter).log } := rfl

/-- An outcome that is handled without doing anything is what is left of the execution. -/
theorem settle_bind_of_eq {x : Exec α} {next : Except Failure α → Exec β} {scope : Scope} {meter : Meter}
    (outcome : Except Failure β) (h : next (x scope meter).outcome = ofOutcome outcome) :
    (settle x >>= next) scope meter =
      ⟨outcome, (x scope meter).scope, (x scope meter).meter, (x scope meter).log⟩ := by
  rw [settle_bind, h]
  exact congrArg (Ran.mk _ _ _) (List.append_nil _)

theorem bind_ofOutcome (x : Exec α) (outcome : Except Failure β) (scope : Scope) (meter : Meter) :
    (x >>= fun _ => ofOutcome outcome) scope meter =
      ⟨(x scope meter).outcome.bind fun _ => outcome, (x scope meter).scope, (x scope meter).meter,
        (x scope meter).log⟩ := by
  cases h : (x scope meter).outcome with
  | error failure => exact bind_of_error h
  | ok a =>
    rw [bind_of_ok h]
    exact congrArg (Ran.mk _ _ _) (List.append_nil _)

/-- A relation between executions that is carried through going on from one to another. -/
structure Binds (R : ∀ {α : Type}, Exec α → Exec α → Prop) : Prop where
  pure : ∀ {α : Type} (a : α), R (Pure.pure a : Exec α) (Pure.pure a)
  bind : ∀ {α β : Type} {x y : Exec α} {next next' : α → Exec β}, R x y → (∀ a, R (next a) (next' a)) →
    R (x >>= next) (y >>= next')

/-- A relation between executions that is carried through going on from one to another, whatever either of them reads
in its scope. -/
structure Chains (R : ∀ {α : Type}, Exec α → Exec α → Prop) : Prop where
  pure : ∀ {α : Type} (a : α), R (Pure.pure a : Exec α) (Pure.pure a)
  raise : ∀ {α : Type} (failure : Failure), failure.error.isFatal = false →
    R (Exec.raise failure : Exec α) (Exec.raise failure)
  bind : ∀ {α β : Type} {x y : Exec α} {next next' : α → Exec β}, R x y → (∀ a, R (next a) (next' a)) →
    R (x >>= next) (y >>= next')

theorem Chains.binds {R : ∀ {α : Type}, Exec α → Exec α → Prop} (law : Chains @R) : Binds @R := ⟨law.pure, law.bind⟩

theorem Chains.lift {R : ∀ {α : Type}, Exec α → Exec α → Prop} (law : Chains @R) {path : Path}
    {result : Except RunError α} (h : Ordinary result) : R (Exec.lift path result) (Exec.lift path result) := by
  cases result with
  | ok a => exact law.pure a
  | error error => exact law.raise ⟨path, error⟩ (h error rfl)

/-- A relation between executions that is carried through their composition. -/
structure Carries (R : ∀ {α : Type}, Exec α → Exec α → Prop) : Prop where
  pure : ∀ {α : Type} (a : α), R (Pure.pure a : Exec α) (Pure.pure a)
  raise : ∀ {α : Type} (failure : Failure), failure.error.isFatal = false →
    R (Exec.raise failure : Exec α) (Exec.raise failure)
  scope : R Exec.scope Exec.scope
  bind : ∀ {α β : Type} {x y : Exec α} {next next' : α → Exec β}, R x y → (∀ a, R (next a) (next' a)) →
    R (x >>= next) (y >>= next')

/-- A relation between executions at two places that is carried through their composition: what goes wrong in both is
put down to the place where each of them stands. -/
structure CarriesAt (path path' : Path) (R : ∀ {α : Type}, Exec α → Exec α → Prop) : Prop where
  pure : ∀ {α : Type} (a : α), R (Pure.pure a : Exec α) (Pure.pure a)
  raise : ∀ {α : Type} (error : RunError), error.isFatal = false →
    R (Exec.raise ⟨path, error⟩ : Exec α) (Exec.raise ⟨path', error⟩)
  scope : R Exec.scope Exec.scope
  bind : ∀ {α β : Type} {x y : Exec α} {next next' : α → Exec β}, R x y → (∀ a, R (next a) (next' a)) →
    R (x >>= next) (y >>= next')

namespace CarriesAt

variable {path path' : Path} {R : ∀ {α : Type}, Exec α → Exec α → Prop} (law : CarriesAt path path' @R)

include law

theorem binds : Binds @R := ⟨law.pure, law.bind⟩

theorem lift {result : Except RunError α} (h : Ordinary result) :
    R (Exec.lift path result) (Exec.lift path' result) := by
  cases result with
  | ok a => exact law.pure a
  | error error => exact law.raise error (h error rfl)

end CarriesAt

theorem Carries.binds {R : ∀ {α : Type}, Exec α → Exec α → Prop} (law : Carries @R) : Binds @R :=
  ⟨law.pure, law.bind⟩

theorem Carries.carriesAt {R : ∀ {α : Type}, Exec α → Exec α → Prop} (law : Carries @R) (path : Path) :
    CarriesAt path path @R :=
  ⟨law.pure, fun error => law.raise ⟨path, error⟩, law.scope, law.bind⟩

/-- A property of executions that is carried through their composition. -/
structure Composes (P : ∀ {α : Type}, Exec α → Prop) : Prop where
  pure : ∀ {α : Type} (a : α), P (Pure.pure a : Exec α)
  raise : ∀ {α : Type} (failure : Failure), failure.error.isFatal = false → P (Exec.raise failure : Exec α)
  scope : P Exec.scope
  bind : ∀ {α β : Type} {x : Exec α} {next : α → Exec β}, P x → (∀ a, P (next a)) → P (x >>= next)

namespace Composes

variable {P : ∀ {α : Type}, Exec α → Prop} (law : Composes @P)

include law

/-- A property is a relation to executions of which nothing is asked. -/
theorem carries : Carries fun {_} x _ => P x where
  pure := law.pure
  raise := law.raise
  scope := law.scope
  bind := law.bind

theorem carriesAt (path : Path) : CarriesAt path path fun {_} x _ => P x := law.carries.carriesAt path

theorem binds : Binds fun {_} x _ => P x := ⟨law.pure, law.bind⟩

theorem lift {path : Path} {result : Except RunError α} (h : Ordinary result) : P (Exec.lift path result) :=
  (law.carriesAt path).lift h

end Composes

theorem refuse_bind (failure : Failure) (next : α → Exec β) :
    ((Exec.refuse failure : Exec α) >>= next) = Exec.refuse failure := rfl

end Exec

namespace Engine

open Exec

theorem runList_of_deep {engine : Engine} {depth : Nat} (h : engine.limits.maxDepth < depth) (steps : List Located)
    (path : Path) :
    engine.runList steps path depth = Exec.refuse ⟨path, .depthLimit engine.limits.maxDepth⟩ := by
  rw [runList, checkDepth, if_pos h, refuse_bind]

/-! ### Two runs

Two engines run the same kinds of step, each at its own place. The lists of the steps are two readings `f` and `g` of
the same items. -/

section

variable {R : ∀ {α : Type}, Exec α → Exec α → Prop} (law : Binds @R) (engine engine' : Engine) (path path' : Path)
  (depth depth' : Nat) {ι : Type} {items : List ι} {f g : ι → Located}

include law

theorem binds_sequence (h : ∀ s ∈ items, ∀ i, R (f s (path.index i) depth) (g s (path'.index i) depth')) (i : Nat)
    (last : Value) :
    R (sequence path depth i last (items.map f)) (sequence path' depth' i last (items.map g)) := by
  induction items generalizing i last with
  | nil => exact law.pure last
  | cons s rest ih =>
    refine law.bind (h s List.mem_cons_self i) fun v => ?_
    exact ih (fun t ht => h t (List.mem_cons_of_mem _ ht)) (i + 1) v

/-- Either a list is nested too deep, or its steps run at a depth within the limit. -/
theorem binds_runList (hlimit : depth ≤ engine.limits.maxDepth → depth' ≤ engine'.limits.maxDepth)
    (hdeep : engine.limits.maxDepth < depth →
      R (engine.runList (items.map f) path depth) (engine'.runList (items.map g) path' depth'))
    (h : depth ≤ engine.limits.maxDepth → ∀ s ∈ items, ∀ i,
      R (f s (path.index i) depth) (g s (path'.index i) depth')) :
    R (engine.runList (items.map f) path depth) (engine'.runList (items.map g) path' depth') := by
  by_cases hd : engine.limits.maxDepth < depth
  · exact hdeep hd
  · have hshallow := Nat.not_lt.mp hd
    have hd' := Nat.not_lt.mpr (hlimit hshallow)
    rw [runList, checkDepth, runList, checkDepth, if_neg hd, if_neg hd']
    exact law.bind (law.pure ()) fun _ => binds_sequence law path path' depth depth' (h hshallow) 0 .null

theorem binds_runUnlessEmpty
    (h : R (engine.runList (items.map f) path depth) (engine'.runList (items.map g) path' depth')) :
    R (engine.runUnlessEmpty (items.map f) path depth) (engine'.runUnlessEmpty (items.map g) path' depth') := by
  rw [runUnlessEmpty, runUnlessEmpty, List.isEmpty_map, List.isEmpty_map]
  split
  · exact law.pure Value.null
  · exact h

end

section

variable {R : ∀ {α : Type}, Exec α → Exec α → Prop} {path path' : Path} (law : CarriesAt path path' @R)
  (engine engine' : Engine) (depth depth' : Nat) {ι : Type} {whenTrue whenFalse : List ι} {f g : ι → Located}

include law

theorem carries_runAbility (name : String) (input : Value)
    (h : ∀ input, R (engine.call path name input) (engine'.call path' name input)) :
    R (engine.runAbility name input path depth) (engine'.runAbility name input path' depth') :=
  law.bind law.scope fun scope => law.bind (law.lift (input.resolve_ordinary scope)) h

theorem carries_runTransform (hcatalog : engine'.catalog = engine.catalog) (operation : String) (input : Value)
    (params : Fields Value) :
    R (engine.runTransform operation input params path depth)
      (engine'.runTransform operation input params path' depth') := by
  refine law.bind law.scope fun scope => law.bind (law.lift (input.resolve_ordinary scope)) fun data => ?_
  refine law.bind (law.lift (Value.resolveFields_ordinary scope params)) fun params => ?_
  rw [hcatalog]
  exact law.lift (engine.catalog.run_ordinary operation data params)

theorem carries_runConditional (condition : Condition)
    (htrue : R (engine.runList (whenTrue.map f) (path.key .thenSteps) (depth + 1))
      (engine'.runList (whenTrue.map g) (path'.key .thenSteps) (depth' + 1)))
    (hfalse : R (engine.runList (whenFalse.map f) (path.key .elseSteps) (depth + 1))
      (engine'.runList (whenFalse.map g) (path'.key .elseSteps) (depth' + 1))) :
    R (engine.runConditional condition (whenTrue.map f) (whenFalse.map f) path depth)
      (engine'.runConditional condition (whenTrue.map g) (whenFalse.map g) path' depth') := by
  refine law.bind law.scope fun scope => law.bind (law.lift (condition.evaluate_ordinary scope)) fun holds => ?_
  cases holds with
  | true => exact binds_runUnlessEmpty law.binds engine engine' _ _ _ _ htrue
  | false => exact binds_runUnlessEmpty law.binds engine engine' _ _ _ _ hfalse

theorem carries_iterate (body body' : Exec Value)
    (h : ∀ inner, R (Exec.within inner body) (Exec.within inner body')) (itemVar : String)
    (indexVar collect : Option String) (items : List (Value × Value)) :
    R (iterate body itemVar indexVar collect items) (iterate body' itemVar indexVar collect items) := by
  induction items with
  | nil => exact law.pure []
  | cons item rest ih =>
    exact law.bind law.scope fun scope => law.bind (h _) fun (_, _) => law.bind ih fun _ => law.pure _

theorem carries_runLoop (input : Value) (body body' : List Located) (itemVar : String)
    (indexVar collect : Option String)
    (h : ∀ inner, R (Exec.within inner (engine.runList body (path.key .steps) (depth + 1)))
      (Exec.within inner (engine'.runList body' (path'.key .steps) (depth' + 1)))) :
    R (engine.runLoop input body itemVar indexVar collect path depth)
      (engine'.runLoop input body' itemVar indexVar collect path' depth') := by
  refine law.bind law.scope fun scope => ?_
  have hitems : Ordinary (input.resolve scope >>= loopItems) :=
    (input.resolve_ordinary scope).bind loopItems_ordinary
  refine law.bind (law.lift hitems) fun items => ?_
  exact law.bind (carries_iterate law _ _ h itemVar indexVar collect items) fun _ => law.pure _

theorem carries_runNested (steps steps' : List Located) (output : Option String) (inputs : Fields Value)
    (h : ∀ inner, R (Exec.within inner (engine.runList steps ((path.key .pipeline).key .steps) (depth + 1)))
      (Exec.within inner (engine'.runList steps' ((path'.key .pipeline).key .steps) (depth' + 1)))) :
    R (engine.runNested steps output inputs path depth) (engine'.runNested steps' output inputs path' depth') := by
  refine law.bind law.scope fun scope => ?_
  refine law.bind (law.lift (Value.resolveFields_ordinary scope inputs)) fun inputs => ?_
  exact law.bind (h _) fun (_, _) => law.pure _

end

/-! ### One run -/

section

variable {P : ∀ {α : Type}, Exec α → Prop} (law : Composes @P) (engine : Engine) (path : Path) (depth : Nat)

include law

theorem composes_runList {steps : List Located}
    (hdeep : engine.limits.maxDepth < depth →
      P (Exec.refuse ⟨path, .depthLimit engine.limits.maxDepth⟩ : Exec Value))
    (h : depth ≤ engine.limits.maxDepth → ∀ s ∈ steps, ∀ i, P (s (path.index i) depth)) :
    P (engine.runList steps path depth) := by
  rw [← List.map_id steps]
  refine binds_runList law.binds engine engine path path depth depth (g := id) id (fun hd => ?_) h
  rw [runList_of_deep hd]
  exact hdeep hd

theorem composes_runUnlessEmpty {steps : List Located} (h : P (engine.runList steps path depth)) :
    P (engine.runUnlessEmpty steps path depth) := by
  rw [← List.map_id steps] at h ⊢
  exact binds_runUnlessEmpty law.binds engine engine path path depth depth (g := id) h

theorem composes_runAbility (name : String) (input : Value) (h : ∀ input, P (engine.call path name input)) :
    P (engine.runAbility name input path depth) :=
  carries_runAbility (law.carriesAt path) engine engine depth depth name input h

theorem composes_runTransform (operation : String) (input : Value) (params : Fields Value) :
    P (engine.runTransform operation input params path depth) :=
  carries_runTransform (law.carriesAt path) engine engine depth depth rfl operation input params

theorem composes_runConditional (condition : Condition) {whenTrue whenFalse : List Located}
    (htrue : P (engine.runList whenTrue (path.key .thenSteps) (depth + 1)))
    (hfalse : P (engine.runList whenFalse (path.key .elseSteps) (depth + 1))) :
    P (engine.runConditional condition whenTrue whenFalse path depth) := by
  rw [← List.map_id whenTrue, ← List.map_id whenFalse] at *
  exact carries_runConditional (law.carriesAt path) engine engine depth depth (g := id) condition htrue hfalse

theorem composes_iterate {body : Exec Value} (h : ∀ inner, P (Exec.within inner body)) (itemVar : String)
    (indexVar collect : Option String) (items : List (Value × Value)) :
    P (iterate body itemVar indexVar collect items) :=
  carries_iterate (law.carriesAt Path.top) body body h itemVar indexVar collect items

theorem composes_runLoop (input : Value) {body : List Located} (itemVar : String)
    (indexVar collect : Option String)
    (h : ∀ inner, P (Exec.within inner (engine.runList body (path.key .steps) (depth + 1)))) :
    P (engine.runLoop input body itemVar indexVar collect path depth) :=
  carries_runLoop (law.carriesAt path) engine engine depth depth input body body itemVar indexVar collect h

theorem composes_runNested {steps : List Located} (output : Option String) (inputs : Fields Value)
    (h : ∀ inner, P (Exec.within inner (engine.runList steps ((path.key .pipeline).key .steps) (depth + 1)))) :
    P (engine.runNested steps output inputs path depth) :=
  carries_runNested (law.carriesAt path) engine engine depth depth steps steps output inputs h

theorem composes_settleBranches {branches : List Located}
    (h : ∀ branch ∈ branches, ∀ i, P (Exec.settle (Exec.fork (branch (path.index i) depth)))) (i : Nat) :
    P (settleBranches path depth i branches) := by
  induction branches generalizing i with
  | nil => exact law.pure []
  | cons branch rest ih =>
    refine law.bind (h branch List.mem_cons_self i) fun outcome => ?_
    refine law.bind (ih (fun b hb => h b (List.mem_cons_of_mem _ hb)) (i + 1)) fun outcomes => ?_
    exact law.pure _

end

end Engine

end Pipewright
