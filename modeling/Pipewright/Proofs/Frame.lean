import Pipewright.Proofs.Composition
import Pipewright.Proofs.StepInduction

/-!
# What a step writes

`Step.writes` lists the names that a step may bind in the scope around it. The scope after a step differs from
the one before at these names only, and no name is lost, whichever way the step ends. Loops and nested
pipelines leave the scope itself as it is; a branch of a parallel step hands over its own output only; and the
error that a recovering list sees is gone when it ends.
-/
namespace Pipewright

namespace Step

mutual

/-- The names that a step may bind in the scope it runs in. -/
def writes : Step → List String
  | .ability _ _ output | .transform _ _ _ output | .loop _ _ _ _ _ output | .subPipeline _ _ output =>
    output.toList
  | .conditional _ whenTrue whenFalse output => output.toList ++ (writesAll whenTrue ++ writesAll whenFalse)
  | .parallel branches output => output.toList ++ branches.filterMap Step.output
  | .tryCatch attempt recovery always output =>
    output.toList ++ (writesAll attempt ++ writesOption recovery ++ writesAll always)

def writesAll : List Step → List String
  | [] => []
  | s :: rest => writes s ++ writesAll rest

def writesOption : Option (List Step) → List String
  | none => []
  | some steps => writesAll steps

end

theorem writes_subset_writesAll {s : Step} {steps : List Step} (h : s ∈ steps) :
    s.writes ⊆ writesAll steps := by
  induction steps with
  | nil => cases h
  | cons first rest ih =>
    rw [writesAll]
    rcases List.mem_cons.mp h with rfl | h
    · exact List.subset_append_left _ _
    · exact List.Subset.trans (ih h) (List.subset_append_right _ _)

end Step

namespace Scope

/-- A scope differs from an earlier one at most at some names, and defines all that the earlier one does. -/
structure ChangedAt (names : List String) (before after : Scope) : Prop where
  kept : ∀ name, name ∉ names → after.get? name = before.get? name
  defined : ∀ name, before.contains name → after.contains name

namespace ChangedAt

variable {names more : List String} {before between after : Scope}

theorem refl (names : List String) (scope : Scope) : ChangedAt names scope scope :=
  ⟨fun _ _ => rfl, fun _ h => h⟩

theorem trans (first : ChangedAt names before between) (second : ChangedAt names between after) :
    ChangedAt names before after :=
  ⟨fun name h => (second.kept name h).trans (first.kept name h),
    fun name h => second.defined name (first.defined name h)⟩

theorem mono (h : ChangedAt names before after) (hsub : names ⊆ more) : ChangedAt more before after :=
  ⟨fun name hname => h.kept name fun hin => hname (hsub hin), h.defined⟩

theorem set {name : String} (hname : name ∈ names) (scope : Scope) (v : Value) :
    ChangedAt names scope (scope.set name v) := by
  constructor
  · intro other hother
    have hne : name ≠ other := by
      rintro rfl
      exact hother hname
    exact get?_set_of_ne hne scope v
  · intro other hother
    rw [contains_eq, get?_set]
    split
    · rfl
    · exact hother

/-- A variable that is bound for a while and then restored has not changed, even if it was written to. -/
theorem restore {name : String} {v : Value} (h : ChangedAt names (before.set name v) after) :
    ChangedAt names before (after.restore name (before.get? name)) := by
  constructor
  · intro other hother
    by_cases heq : name = other
    · subst heq
      exact get?_restore_self after name _
    · rw [get?_restore_of_ne heq, h.kept other hother, get?_set_of_ne heq]
  · intro other hother
    by_cases heq : name = other
    · subst heq
      rwa [contains_eq, get?_restore_self]
    · have hset : (before.set name v).contains other := by
        rwa [contains_eq, get?_set_of_ne heq]
      have hafter := h.defined other hset
      rwa [contains_eq, get?_restore_of_ne heq]

end ChangedAt

end Scope

namespace Exec

variable {α β : Type} {names more : List String}

/-- The execution ends in the scope that it starts in. -/
def LeavesScope (x : Exec α) : Prop := ∀ scope meter, (x scope meter).scope = scope

/-- The execution changes the scope at most at some names, and undefines none. -/
def ChangesAt (names : List String) (x : Exec α) : Prop :=
  ∀ scope meter, Scope.ChangedAt names scope (x scope meter).scope

theorem leavesScope_bind {x : Exec α} {next : α → Exec β} (hx : x.LeavesScope)
    (hnext : ∀ a, (next a).LeavesScope) : (x >>= next).LeavesScope := by
  intro scope meter
  cases h : (x scope meter).outcome with
  | error failure =>
    rw [bind_of_error h]
    exact hx scope meter
  | ok a =>
    rw [bind_of_ok h]
    exact (hnext a _ _).trans (hx scope meter)

theorem leavesScope_composes : Composes @LeavesScope where
  pure _ := fun _ _ => rfl
  raise _ _ := fun _ _ => rfl
  scope := fun _ _ => rfl
  bind := leavesScope_bind

theorem LeavesScope.changesAt {x : Exec α} (h : x.LeavesScope) (names : List String) : x.ChangesAt names := by
  intro scope meter
  rw [h scope meter]
  exact Scope.ChangedAt.refl names scope

theorem ChangesAt.mono {x : Exec α} (h : x.ChangesAt names) (hsub : names ⊆ more) : x.ChangesAt more :=
  fun scope meter => (h scope meter).mono hsub

theorem changesAt_bind {x : Exec α} {next : α → Exec β} (hx : x.ChangesAt names)
    (hnext : ∀ a, (next a).ChangesAt names) : (x >>= next).ChangesAt names := by
  intro scope meter
  cases h : (x scope meter).outcome with
  | error failure =>
    rw [bind_of_error h]
    exact hx scope meter
  | ok a =>
    rw [bind_of_ok h]
    exact (hx scope meter).trans (hnext a _ _)

theorem changesAt_composes (names : List String) : Composes (ChangesAt names) where
  pure a := (leavesScope_composes.pure a).changesAt names
  raise failure h := (leavesScope_composes.raise failure h).changesAt names
  scope := leavesScope_composes.scope.changesAt names
  bind := changesAt_bind

theorem changesAt_transactional {x : Exec α} (h : x.ChangesAt names) : (transactional x).ChangesAt names := by
  intro scope meter
  rw [transactional]
  split
  · exact h scope meter
  · exact Scope.ChangedAt.refl names scope

theorem changesAt_binding {x : Exec α} (h : x.ChangesAt names) (name : String) (v : Value) :
    (binding name v x).ChangesAt names :=
  fun scope meter => (h (scope.set name v) meter).restore

end Exec

namespace Engine

open Exec

variable (engine : Engine) (path : Path) (depth : Nat) {names : List String}

theorem changesAt_bindOutput (output : Option String) (v : Value) :
    (bindOutput output v).ChangesAt output.toList := by
  cases output with
  | none => exact (changesAt_composes []).pure ()
  | some name => exact fun scope _ => Scope.ChangedAt.set List.mem_cons_self scope v

theorem leavesScope_beginStep (kind : StepKind) : (engine.beginStep path kind).LeavesScope := by
  refine leavesScope_bind (fun _ _ => rfl) fun seconds => ?_
  split
  · exact fun _ _ => rfl
  · refine leavesScope_bind (fun _ _ => rfl) fun meter => ?_
    split <;> exact fun _ _ => rfl

theorem leavesScope_startStep (s : Step) : (engine.startStep s path depth).LeavesScope := by
  refine leavesScope_bind (leavesScope_beginStep engine path s.kind) fun _ => ?_
  exact fun _ _ => rfl

theorem changesAt_endStep (s : Step) (outcome : Except Failure Value) :
    (endStep s path outcome).ChangesAt s.output.toList := by
  cases outcome with
  | ok v =>
    refine changesAt_bind (changesAt_bindOutput s.output v) fun _ => ?_
    have hrest : (do observe; Exec.emit (.stepCompleted path s.kind); return v : Exec Value).LeavesScope :=
      fun _ _ => rfl
    exact hrest.changesAt _
  | error failure =>
    rw [endStep]
    split <;> exact LeavesScope.changesAt (fun _ _ => rfl) _

/-- Besides its output a step changes what its kind changes. -/
theorem changesAt_supervise (s : Step) {body : Located} (h : (body path depth).ChangesAt names) :
    (engine.supervise s body path depth).ChangesAt (s.output.toList ++ names) := by
  refine changesAt_bind ((leavesScope_startStep engine path depth s).changesAt _) fun _ => ?_
  refine changesAt_bind (ChangesAt.mono ?_ (List.subset_append_right _ _)) fun outcome => ?_
  · exact h
  · exact (changesAt_endStep path s outcome).mono (List.subset_append_left _ _)

theorem leavesScope_call (name : String) (input : Value) : (engine.call path name input).LeavesScope := by
  rw [call]
  split
  · exact fun _ _ => rfl
  · exact fun _ _ => rfl

theorem changedAt_mergeOutputs (outputs : List (Option String)) (outcomes : List BranchOutcome)
    (scope : Scope) :
    Scope.ChangedAt (outputs.filterMap id) scope (mergeOutputs outputs outcomes scope) := by
  induction outputs generalizing outcomes scope with
  | nil => exact Scope.ChangedAt.refl _ scope
  | cons output rest ih =>
    cases outcomes with
    | nil => exact Scope.ChangedAt.refl _ scope
    | cons outcome outcomes =>
      have hrest : rest.filterMap id ⊆ (output :: rest).filterMap id :=
        ((List.sublist_cons_self output rest).filterMap id).subset
      have hone : Scope.ChangedAt ((output :: rest).filterMap id) scope (mergeOutput scope (output, outcome)) := by
        rw [mergeOutput.eq_def]
        split
        next name _ _ heq =>
          obtain ⟨rfl, -⟩ := Prod.mk.inj heq
          exact Scope.ChangedAt.set List.mem_cons_self scope _
        · exact Scope.ChangedAt.refl _ scope
      exact hone.trans ((ih outcomes _).mono hrest)

/-- Branches run in scopes of their own, and only their outputs are taken over. -/
theorem changesAt_runParallel (outputs : List (Option String)) (branches : List Located) :
    (engine.runParallel outputs branches path depth).ChangesAt (outputs.filterMap id) := by
  have hcheck : (engine.checkDepth (path.key .steps) (depth + 1)).LeavesScope := by
    rw [checkDepth]
    split <;> exact fun _ _ => rfl
  have hbranches : (settleBranches (path.key .steps) (depth + 1) 0 branches).LeavesScope :=
    composes_settleBranches leavesScope_composes _ _ (fun _ _ _ _ _ => rfl) 0
  refine changesAt_bind (hcheck.changesAt _) fun _ => ?_
  refine changesAt_bind (hbranches.changesAt _) fun outcomes => ?_
  refine changesAt_bind (fun scope _ => changedAt_mergeOutputs outputs outcomes scope) fun _ => ?_
  split <;> exact LeavesScope.changesAt (fun _ _ => rfl) _

theorem changesAt_recovering {attempt : Exec Value} {recovery : Option (Exec Value)}
    (hattempt : attempt.ChangesAt names) (hrecovery : ∀ x, recovery = some x → x.ChangesAt names) :
    (recovering path attempt recovery).ChangesAt names := by
  refine changesAt_bind (changesAt_transactional hattempt) fun outcome => ?_
  split
  · exact (changesAt_composes names).pure _
  · split
    · exact LeavesScope.changesAt (fun _ _ => rfl) _
    next recovery =>
      split
      · exact LeavesScope.changesAt (fun _ _ => rfl) _
      · refine changesAt_bind (LeavesScope.changesAt (fun _ _ => rfl) _) fun _ => ?_
        exact changesAt_binding (hrecovery recovery rfl) _ _

theorem changesAt_ensuring {x always : Exec Value} (hx : x.ChangesAt names) (halways : always.ChangesAt names) :
    (ensuring x always).ChangesAt names := by
  refine changesAt_bind hx fun outcome => ?_
  split
  · split
    · exact LeavesScope.changesAt (fun _ _ => rfl) _
    · exact changesAt_bind halways fun _ => LeavesScope.changesAt (fun _ _ => rfl) _
  · exact changesAt_bind halways fun _ => (changesAt_composes names).pure _

/-- A list changes what its steps change. -/
theorem changesAt_runSteps {steps : List Step}
    (h : ∀ s ∈ steps, ∀ path depth, (engine.runStep s path depth).ChangesAt s.writes) :
    (engine.runList (engine.runSteps steps) path depth).ChangesAt (Step.writesAll steps) := by
  refine composes_runList (changesAt_composes _) engine path depth (fun _ => ?_) fun _ => ?_
  · exact LeavesScope.changesAt (fun _ _ => rfl) _
  · refine forall_mem_runSteps fun s hs i => ?_
    exact (h s hs _ _).mono (Step.writes_subset_writesAll hs)

/-- A step whose kind leaves the scope as it is changes its output only. -/
theorem changesAt_supervise_of_leavesScope (s : Step) {body : Located} (h : (body path depth).LeavesScope) :
    (engine.supervise s body path depth).ChangesAt s.output.toList := by
  rw [← List.append_nil s.output.toList]
  exact changesAt_supervise engine path depth s (h.changesAt [])

theorem changesAt_runStep (s : Step) : (engine.runStep s path depth).ChangesAt s.writes := by
  induction s using Step.induction generalizing path depth with
  | ability name input output =>
    rw [runStep, Step.writes]
    refine changesAt_supervise_of_leavesScope engine path depth (.ability name input output) ?_
    exact composes_runAbility leavesScope_composes engine path depth name input (leavesScope_call engine path name)
  | transform operation input params output =>
    rw [runStep, Step.writes]
    refine changesAt_supervise_of_leavesScope engine path depth (.transform operation input params output) ?_
    exact composes_runTransform leavesScope_composes engine path depth operation input params
  | conditional condition whenTrue whenFalse output htrue hfalse =>
    rw [runStep, Step.writes]
    refine changesAt_supervise engine path depth (.conditional condition whenTrue whenFalse output) ?_
    refine composes_runConditional (changesAt_composes _) engine path depth condition ?_ ?_
    · exact (changesAt_runSteps engine _ _ htrue).mono (List.subset_append_left _ _)
    · exact (changesAt_runSteps engine _ _ hfalse).mono (List.subset_append_right _ _)
  | loop input body itemVar indexVar collect output =>
    rw [runStep, Step.writes]
    refine changesAt_supervise_of_leavesScope engine path depth
      (.loop input body itemVar indexVar collect output) ?_
    exact composes_runLoop leavesScope_composes engine path depth input itemVar indexVar collect
      fun _ _ _ => rfl
  | parallel branches output =>
    have hwrites : (branches.map Step.output).filterMap id = branches.filterMap Step.output :=
      List.filterMap_map
    rw [runStep, Step.writes, ← hwrites]
    refine changesAt_supervise engine path depth (.parallel branches output) ?_
    exact changesAt_runParallel engine path depth _ _
  | tryCatch attempt recovery always output hattempt hrecovery halways =>
    rw [runStep, Step.writes]
    refine changesAt_supervise engine path depth (.tryCatch attempt recovery always output) ?_
    refine changesAt_ensuring (changesAt_recovering path ?_ ?_) ?_
    · refine (changesAt_runSteps engine _ _ hattempt).mono ?_
      exact List.subset_append_of_subset_left _ (List.subset_append_left _ _)
    · refine forall_eq_some_runOption fun steps hsome => ?_
      refine (changesAt_runSteps engine _ _ (hrecovery steps hsome)).mono ?_
      rw [hsome]
      exact List.subset_append_of_subset_left _ (List.subset_append_right _ _)
    · refine composes_runUnlessEmpty (changesAt_composes _) engine _ _ ?_
      exact (changesAt_runSteps engine _ _ halways).mono (List.subset_append_right _ _)
  | subPipeline pipeline inputs output =>
    obtain ⟨name, description, steps, result, limits⟩ := pipeline
    rw [runStep, Step.writes]
    refine changesAt_supervise_of_leavesScope engine path depth
      (.subPipeline ⟨name, description, steps, result, limits⟩ inputs output) ?_
    exact composes_runNested leavesScope_composes engine path depth result inputs fun _ _ _ => rfl

/-- A step changes the scope around it at most at the names that it writes, and forgets none, whatever it
comes to: a value, an ordinary failure or a limit. -/
theorem runStep_scope (s : Step) (scope : Scope) (meter : Meter) :
    let after := (engine.runStep s path depth scope meter).scope
    (∀ name, name ∉ s.writes → after.get? name = scope.get? name) ∧
      ∀ name, scope.contains name → after.contains name :=
  ⟨(changesAt_runStep engine path depth s scope meter).kept,
    (changesAt_runStep engine path depth s scope meter).defined⟩

/-- A recovering list has run, its output is there, and the variable that it found the error in is untouched. -/
theorem runStep_scope_of_recovered :
    let s : Step := .tryCatch [.ability "missing" .null none] (some [.transform "count" (.arr []) [] (some "x")]) []
      none
    let scope : Scope := .ofFields [("error", .str "mine")]
    let after := (runStep ⟨.none, .builtin, .standard⟩ s Path.top 0 scope (.fresh .still)).scope
    "error" ∉ s.writes ∧ scope.contains "error" ∧ after.contains "x" ∧ after.get? "error" = scope.get? "error" ∧
      after.contains "error" := by
  intro s scope after
  have hfree : "error" ∉ s.writes := by decide
  have hdefined : scope.contains "error" := by decide +kernel
  have hwritten : after.contains "x" := by decide +kernel
  have hscope := runStep_scope ⟨.none, .builtin, .standard⟩ Path.top 0 s scope (.fresh .still)
  exact ⟨hfree, hdefined, hwritten, hscope.1 "error" hfree, hscope.2 "error" hdefined⟩

end Engine

end Pipewright
