import Pipewright.Proofs.Halting

/-!
# Counting in a log

Acts of a sort that an execution does at most so often. Such bounds add up: two executions after each other do
together what both of them do. Only what happens when a step or a list is about to begin is counted here, so the
bound for a step is that of its start and of what its kind does.
-/
namespace Pipewright

/-- Whether an act is the start of a step, or a refusal. -/
def Act.begins : Act → Bool
  | .tell (.stepStarted ..) | .refuse _ => true
  | _ => false

/-- How often a log has acts of a sort. -/
def tally (sort : Act → Bool) (log : List Moment) : Nat := log.countP fun moment => sort moment.act

namespace Exec

variable {α β : Type} {sort : Act → Bool} {n m : Nat}

/-- Acts of a sort are done at most so often. -/
def AtMost (sort : Act → Bool) (n : Nat) (x : Exec α) : Prop := ∀ scope meter, tally sort (x scope meter).log ≤ n

theorem AtMost.mono {x : Exec α} (h : x.AtMost sort n) (hle : n ≤ m) : x.AtMost sort m :=
  fun scope meter => Nat.le_trans (h scope meter) hle

theorem atMost_bind {x : Exec α} {next : α → Exec β} (hx : x.AtMost sort n) (hnext : ∀ a, (next a).AtMost sort m) :
    (x >>= next).AtMost sort (n + m) := by
  intro scope meter
  cases h : (x scope meter).outcome with
  | error failure =>
    rw [bind_of_error h]
    exact Nat.le_add_right_of_le (hx scope meter)
  | ok a =>
    rw [bind_of_ok h, tally, List.countP_append]
    exact Nat.add_le_add (hx scope meter) (hnext a _ _)

theorem atMost_composes (sort : Act → Bool) : Composes (AtMost sort 0) where
  pure _ := fun _ _ => Nat.le_refl 0
  raise _ _ := fun _ _ => Nat.le_refl 0
  scope := fun _ _ => Nat.le_refl 0
  bind := atMost_bind

/-- What is done before does not count. -/
theorem atMost_bind_right {x : Exec α} {next : α → Exec β} (hx : x.AtMost sort 0)
    (hnext : ∀ a, (next a).AtMost sort n) : (x >>= next).AtMost sort n :=
  (atMost_bind hx hnext).mono (Nat.le_of_eq (Nat.zero_add n))

theorem atMost_raise (failure : Failure) : (raise failure : Exec α).AtMost sort n := fun _ _ => Nat.zero_le n

theorem atMost_pure (a : α) : (pure a : Exec α).AtMost sort n := fun _ _ => Nat.zero_le n

theorem atMost_note {act : Act} (h : sort act = false) : (note act).AtMost sort 0 :=
  fun _ _ => Nat.le_of_eq (by simp [tally, note, h])

theorem atMost_refuse {failure : Failure} (h : sort (.refuse failure) = false) :
    (refuse failure : Exec α).AtMost sort n :=
  atMost_bind_right (atMost_note h) fun _ => atMost_raise failure

theorem atMost_transactional {x : Exec α} (h : x.AtMost sort n) : (transactional x).AtMost sort n := by
  intro scope meter
  rw [transactional]
  split <;> exact h scope meter

end Exec

namespace Engine

open Exec

variable {sort : Act → Bool} (engine : Engine) (path : Path) (depth : Nat) {n m : Nat}

section

variable (hsort : ∀ act, act.begins = false → sort act = false)

include hsort

theorem atMost_endStep (s : Step) (outcome : Except Failure Value) : (endStep s path outcome).AtMost sort 0 := by
  have law := atMost_composes sort
  cases outcome with
  | ok v =>
    refine law.bind ?_ fun _ => law.bind (fun _ _ => Nat.le_refl 0) fun _ => law.bind ?_ fun _ => law.pure v
    · cases s.output <;> exact fun _ _ => Nat.le_refl 0
    · exact atMost_note (hsort _ rfl)
  | error failure =>
    rw [endStep]
    split
    · exact law.bind (atMost_note (hsort _ rfl)) fun _ => atMost_raise failure
    · exact atMost_raise failure

/-- A step does what its start does, and what its kind does. -/
theorem atMost_supervise {s : Step} {body : Located} (hstart : (engine.startStep s path depth).AtMost sort n)
    (hbody : (body path depth).AtMost sort m) : (engine.supervise s body path depth).AtMost sort (n + m) := by
  have hsettled : (Exec.settle (body path depth)).AtMost sort m := hbody
  exact atMost_bind hstart fun _ => atMost_bind hsettled (atMost_endStep path hsort s)

theorem atMost_call (name : String) (input : Value) : (engine.call path name input).AtMost sort 0 := by
  intro scope meter
  rcases callsOnce_call engine path name input scope meter with ⟨-, hlog⟩ | ⟨call, -, hlog⟩
  · rw [hlog]
    exact Nat.le_refl 0
  · rw [hlog]
    exact Nat.le_of_eq (by simp [tally, hsort (.call call) rfl])

theorem atMost_recovering {attempt : Exec Value} {recovery : Option (Exec Value)} (hattempt : attempt.AtMost sort n)
    (hrecovery : ∀ x, recovery = some x → x.AtMost sort m) :
    (recovering path attempt recovery).AtMost sort (n + m) := by
  have hsettled : (Exec.settle (transactional attempt)).AtMost sort n := atMost_transactional hattempt
  refine atMost_bind hsettled fun outcome => ?_
  split
  · exact atMost_pure _
  · split
    · exact atMost_raise _
    next recovery =>
      split
      · exact atMost_raise _
      · refine atMost_bind_right (atMost_note (hsort _ rfl)) fun _ => ?_
        exact fun scope meter => hrecovery recovery rfl _ meter

end

theorem atMost_ensuring {x always : Exec Value} (hx : x.AtMost sort n) (halways : always.AtMost sort m) :
    (ensuring x always).AtMost sort (n + m) := by
  have hsettled : (Exec.settle x).AtMost sort n := hx
  refine atMost_bind hsettled fun outcome => ?_
  split
  · split
    · exact atMost_raise _
    · exact atMost_bind (m := 0) halways fun _ => atMost_raise _
  · exact atMost_bind (m := 0) halways fun _ => atMost_pure _

/-- A refusal for the depth counts or the depth is within the limit. -/
theorem atMost_checkDepth
    (hdeep : engine.limits.maxDepth < depth → sort (.refuse ⟨path, .depthLimit engine.limits.maxDepth⟩) = false) :
    (engine.checkDepth path depth).AtMost sort 0 := by
  rw [checkDepth]
  split
  next h => exact atMost_refuse (hdeep h)
  · exact atMost_pure ()

/-- Branches do what each of them does, whatever becomes of the others. -/
theorem atMost_runParallel (outputs : List (Option String)) {branches : List Located}
    (hdeep : engine.limits.maxDepth < depth + 1 →
      sort (.refuse ⟨path.key .steps, .depthLimit engine.limits.maxDepth⟩) = false)
    (hbranches : (settleBranches (path.key .steps) (depth + 1) 0 branches).AtMost sort n) :
    (engine.runParallel outputs branches path depth).AtMost sort n := by
  refine atMost_bind_right (atMost_checkDepth engine _ _ hdeep) fun _ => ?_
  refine atMost_bind (m := 0) hbranches fun outcomes => ?_
  refine atMost_bind_right (fun _ _ => Nat.le_refl 0) fun _ => ?_
  split
  · exact atMost_raise _
  · exact atMost_pure _

theorem atMost_runConditional (condition : Condition) {whenTrue whenFalse : List Located}
    (htrue : (engine.runUnlessEmpty whenTrue (path.key .thenSteps) (depth + 1)).AtMost sort n)
    (hfalse : (engine.runUnlessEmpty whenFalse (path.key .elseSteps) (depth + 1)).AtMost sort n) :
    (engine.runConditional condition whenTrue whenFalse path depth).AtMost sort n := by
  have law := atMost_composes sort
  refine atMost_bind_right law.scope fun scope => ?_
  refine atMost_bind_right (law.lift (condition.evaluate_ordinary scope)) fun holds => ?_
  cases holds with
  | true => exact htrue
  | false => exact hfalse

theorem atMost_runNested {steps : List Located} (output : Option String) (inputs : Fields Value)
    (h : (engine.runList steps ((path.key .pipeline).key .steps) (depth + 1)).AtMost sort n) :
    (engine.runNested steps output inputs path depth).AtMost sort n := by
  have law := atMost_composes sort
  refine atMost_bind_right law.scope fun scope => ?_
  refine atMost_bind_right (law.lift (Value.resolveFields_ordinary scope inputs)) fun inputs => ?_
  exact atMost_bind (m := 0) (fun _ meter => h _ meter) fun (_, _) => atMost_pure _

section

variable {ι : Type} {items : List ι} {f : ι → Located} {cost : ι → Nat}

theorem atMost_sequence (h : ∀ s ∈ items, ∀ i, (f s (path.index i) depth).AtMost sort (cost s)) (i : Nat)
    (last : Value) : (sequence path depth i last (items.map f)).AtMost sort (Step.sumOf (items.map cost)) := by
  induction items generalizing i last with
  | nil => exact atMost_pure last
  | cons s rest ih =>
    refine atMost_bind (h s List.mem_cons_self i) fun v => ?_
    exact ih (fun t ht => h t (List.mem_cons_of_mem _ ht)) (i + 1) v

theorem atMost_settleBranches (h : ∀ s ∈ items, ∀ i, (f s (path.index i) depth).AtMost sort (cost s)) (i : Nat) :
    (settleBranches path depth i (items.map f)).AtMost sort (Step.sumOf (items.map cost)) := by
  induction items generalizing i with
  | nil => exact atMost_pure []
  | cons s rest ih =>
    refine atMost_bind (fun scope meter => h s List.mem_cons_self i scope meter) fun outcome => ?_
    refine atMost_bind (m := 0) (ih (fun t ht => h t (List.mem_cons_of_mem _ ht)) (i + 1)) fun outcomes => ?_
    exact atMost_pure _

end

end Engine

end Pipewright
