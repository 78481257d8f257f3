import Pipewright.Proofs.Halting
import Pipewright.Proofs.Recovery

/-!
# Branches

The branches of a parallel step know nothing of each other: each is attempted once, in the scope that the step
found. What is left of them in that scope are the results of those that succeeded and declare an output, written
in the order in which the branches are declared.
-/
namespace Pipewright

namespace Scope

/-- Binds names to values, one after the other. -/
def setAll (scope : Scope) (entries : List (String × Value)) : Scope :=
  entries.foldl (fun scope entry => scope.set entry.1 entry.2) scope

theorem setAll_append (scope : Scope) (first second : List (String × Value)) :
    scope.setAll (first ++ second) = (scope.setAll first).setAll second :=
  List.foldl_append

/-- The last entry of a name counts. -/
theorem get?_setAll (scope : Scope) (entries : List (String × Value)) (name : String) :
    (scope.setAll entries).get? name =
      ((entries.reverse.find? (·.1 = name)).map Prod.snd).or (scope.get? name) := by
  induction entries generalizing scope with
  | nil => rfl
  | cons entry rest ih =>
    obtain ⟨key, v⟩ := entry
    have hrest : (scope.setAll ((key, v) :: rest)).get? name = ((scope.set key v).setAll rest).get? name := rfl
    rw [hrest, ih, get?_set, List.reverse_cons, List.find?_append, Option.map_or, Option.or_assoc]
    by_cases hkey : key = name <;> simp [hkey]

end Scope

/-- The failure of an execution that failed. -/
def Ran.failure? {α : Type} (ran : Ran α) : Option Failure :=
  match ran.outcome with
  | .error failure => some failure
  | .ok _ => none

namespace Engine

open Exec

/-- The branches of a list from position `i` on, each attempted in the same scope; only what is counted is handed on
from one to the next. -/
def attempts (engine : Engine) (list : Path) (depth : Nat) (scope : Scope) :
    Nat → Meter → List Step → List (Ran Value)
  | _, _, [] => []
  | i, meter, branch :: rest =>
    let ran := engine.runStep branch (list.index i) depth scope meter
    ran :: attempts engine list depth scope (i + 1) ran.meter rest

/-- What the meter shows after some executions. -/
def meterAfter (meter : Meter) (rans : List (Ran Value)) : Meter := rans.foldl (fun _ ran => ran.meter) meter

/-- The output that a branch declares, and its result if it has one. -/
def produced? (branch : Step) (ran : Ran Value) : Option (String × Value) :=
  match branch.output, ran.outcome with
  | some name, .ok v => some (name, v)
  | _, _ => none

/-- The outputs of the branches that succeed and declare one, in the order of the branches. -/
def produced (branches : List Step) (rans : List (Ran Value)) : List (String × Value) :=
  (branches.zip rans).filterMap fun pair => produced? pair.1 pair.2

theorem produced_cons (branch : Step) (rest : List Step) (ran : Ran Value) (rans : List (Ran Value)) :
    produced (branch :: rest) (ran :: rans) = (produced? branch ran).toList ++ produced rest rans := by
  rw [produced, List.zip_cons_cons, List.filterMap_cons]
  cases produced? branch ran <;> rfl

/-- A branch with the scope that it ended in, as it is handed over. -/
def handedOver (ran : Ran Value) : BranchOutcome := ran.outcome.map fun v => (v, ran.scope)

section

variable (engine : Engine) (list : Path) (depth : Nat) (scope : Scope)

theorem length_attempts (i : Nat) (meter : Meter) (branches : List Step) :
    (engine.attempts list depth scope i meter branches).length = branches.length := by
  induction branches generalizing i meter with
  | nil => rfl
  | cons branch rest ih => exact congrArg (· + 1) (ih _ _)

theorem settleBranches_eq (i : Nat) (meter : Meter) (branches : List Step) :
    settleBranches list depth i (engine.runSteps branches) scope meter =
      let rans := engine.attempts list depth scope i meter branches
      ⟨.ok (rans.map handedOver), scope, meterAfter meter rans, (rans.map Ran.log).flatten⟩ := by
  induction branches generalizing i meter with
  | nil => rfl
  | cons branch rest ih =>
    let ran := engine.runStep branch (list.index i) depth scope meter
    have hforked : fork (engine.runStep branch (list.index i) depth) scope meter =
        { ran with outcome := handedOver ran, scope := scope } := rfl
    have hrest := ih (i + 1) ran.meter
    rw [runSteps, settleBranches, settle_bind, hforked, bind_of_ok (by rw [hrest]), hrest]
    change Ran.mk _ _ _ (ran.log ++ (_ ++ [])) = _
    rw [List.append_nil]
    rfl

theorem exists_supervise (s : Step) : ∃ body, engine.runStep s = engine.supervise s body := by
  cases s with
  | subPipeline pipeline inputs output =>
    obtain ⟨name, description, steps, result, limits⟩ := pipeline
    exact ⟨_, rfl⟩
  | _ => exact ⟨_, rfl⟩

/-- A branch that succeeds has its result bound to its output. -/
theorem get?_output_of_ok {s : Step} {path : Path} {meter : Meter} {name : String} {v : Value}
    (hname : s.output = some name) (hok : (engine.runStep s path depth scope meter).outcome = .ok v) :
    (engine.runStep s path depth scope meter).scope.get? name = some v := by
  obtain ⟨body, hbody⟩ := exists_supervise engine s
  rw [hbody] at hok ⊢
  cases hbegun : (engine.startStep s path depth scope meter).outcome with
  | error failure =>
    rw [supervise, bind_of_error hbegun] at hok
    cases hok
  | ok =>
    rw [supervise_of_begun engine s body path depth scope meter hbegun] at hok
    simp only [endStep_outcome] at hok
    rw [supervise_scope engine s body path depth scope meter hbegun, boundScope, hok, hname]
    exact Scope.get?_set_self _ name v

theorem mergeOutputs_attempts (i : Nat) (meter : Meter) (branches : List Step) (merged : Scope) :
    let rans := engine.attempts list depth scope i meter branches
    mergeOutputs (branches.map Step.output) (rans.map handedOver) merged =
      merged.setAll (produced branches rans) := by
  induction branches generalizing i meter merged with
  | nil => rfl
  | cons branch rest ih =>
    let ran := engine.runStep branch (list.index i) depth scope meter
    have hone : mergeOutput merged (branch.output, handedOver ran) = merged.setAll (produced? branch ran).toList := by
      cases hname : branch.output with
      | none => simp [mergeOutput, produced?, hname, Scope.setAll]
      | some name =>
        cases hok : ran.outcome with
        | error failure => simp [mergeOutput, produced?, handedOver, hname, hok, Except.map, Scope.setAll]
        | ok v =>
          have hbound : ran.scope.get? name = some v := get?_output_of_ok engine depth scope hname hok
          simp [mergeOutput, produced?, handedOver, hname, hok, Except.map, Scope.setAll, Scope.getOrNull, hbound]
    -- The scope of the later branches is the one at the start, whatever has been merged by then.
    let rans := engine.attempts list depth scope (i + 1) ran.meter rest
    calc mergeOutputs ((branch :: rest).map Step.output) ((ran :: rans).map handedOver) merged
      _ = mergeOutputs (rest.map Step.output) (rans.map handedOver)
            (mergeOutput merged (branch.output, handedOver ran)) := rfl
      _ = (mergeOutput merged (branch.output, handedOver ran)).setAll (produced rest rans) := ih _ _ _
      _ = merged.setAll (produced (branch :: rest) (ran :: rans)) := by
        rw [hone, ← Scope.setAll_append, ← produced_cons]

theorem failuresOf_handedOver (rans : List (Ran Value)) :
    failuresOf (rans.map handedOver) = rans.filterMap Ran.failure? := by
  rw [failuresOf, List.filterMap_map]
  refine congrArg (List.filterMap · rans) (funext fun ran => ?_)
  rw [Function.comp_apply, handedOver, Ran.failure?]
  cases ran.outcome <;> rfl

end

/-- What a parallel step fails with: the first failure for a limit, or else the first. -/
def firstFailure? (rans : List (Ran Value)) : Option Failure :=
  ((rans.filterMap Ran.failure?).find? (·.error.isFatal)).or (rans.filterMap Ran.failure?).head?

theorem branchFailure_handedOver (rans : List (Ran Value)) :
    branchFailure? (rans.map handedOver) = firstFailure? rans := by
  rw [branchFailure?, failuresOf_handedOver, firstFailure?]

theorem firstFailure_eq_none {rans : List (Ran Value)} :
    firstFailure? rans = none ↔ rans.filterMap Ran.failure? = [] := by
  rw [firstFailure?]
  cases rans.filterMap Ran.failure? with
  | nil => simp
  | cons failure rest => simp

theorem exists_values_iff (rans : List (Ran Value)) :
    (∃ vs : List Value, rans.map Ran.outcome = vs.map .ok) ↔ firstFailure? rans = none := by
  rw [firstFailure_eq_none]
  induction rans with
  | nil => exact ⟨fun _ => rfl, fun _ => ⟨[], rfl⟩⟩
  | cons ran rest ih =>
    cases houtcome : ran.outcome with
    | error failure =>
      have hfailure : ran.failure? = some failure := by rw [Ran.failure?, houtcome]
      rw [List.filterMap_cons_some hfailure]
      refine ⟨fun ⟨vs, h⟩ => ?_, nofun⟩
      rw [List.map_cons, houtcome] at h
      cases vs <;> simp at h
    | ok v =>
      have hfailure : ran.failure? = none := by rw [Ran.failure?, houtcome]
      rw [List.filterMap_cons_none hfailure, ← ih, List.map_cons, houtcome]
      constructor
      · rintro ⟨vs, h⟩
        cases vs with
        | nil => cases h
        | cons _ vs => exact ⟨vs, (List.cons.inj h).2⟩
      · rintro ⟨vs, h⟩
        exact ⟨v :: vs, by rw [h, List.map_cons]⟩

/-- Whatever branches come to, their outputs are taken over, and nothing is told or counted. -/
theorem joinBranches_writes (outputs : List (Option String)) (outcomes : List BranchOutcome) (scope : Scope)
    (meter : Meter) :
    (joinBranches outputs outcomes scope meter).scope = mergeOutputs outputs outcomes scope ∧
      (joinBranches outputs outcomes scope meter).meter = meter ∧
      (joinBranches outputs outcomes scope meter).log = [] := by
  rw [joinBranches]
  cases branchFailure? outcomes <;> exact ⟨rfl, rfl, rfl⟩

theorem joinBranches_of_ok {rans : List (Ran Value)} {vs : List Value} (h : rans.map Ran.outcome = vs.map .ok)
    (outputs : List (Option String)) (scope : Scope) (meter : Meter) :
    (joinBranches outputs (rans.map handedOver) scope meter).outcome = .ok (.arr vs) := by
  have hnone := (exists_values_iff rans).mp ⟨vs, h⟩
  have hvalues : (rans.map handedOver).filterMap (fun outcome => outcome.toOption.map Prod.fst) = vs := by
    have hfirst (ran : Ran Value) : (handedOver ran).toOption.map Prod.fst = ran.outcome.toOption := by
      rw [handedOver]
      cases ran.outcome <;> rfl
    calc (rans.map handedOver).filterMap (fun outcome => outcome.toOption.map Prod.fst)
      _ = (rans.map Ran.outcome).filterMap Except.toOption := by
        rw [List.filterMap_map, List.filterMap_map]
        exact congrArg (List.filterMap · rans) (funext hfirst)
      _ = vs := by
        rw [h, List.filterMap_map]
        exact List.filterMap_some
  rw [joinBranches, branchFailure_handedOver, hnone, hvalues]
  rfl

theorem joinBranches_of_failure {outcomes : List BranchOutcome} {failure : Failure}
    (h : branchFailure? outcomes = some failure) (outputs : List (Option String)) (scope : Scope) (meter : Meter) :
    (joinBranches outputs outcomes scope meter).outcome = .error failure := by
  rw [joinBranches, h]
  rfl

/-- Branches are joined to the list of their results, or to the failure that is to blame. -/
theorem joinBranches_outcome (rans : List (Ran Value)) (outputs : List (Option String)) (scope : Scope)
    (meter : Meter) :
    let joined := joinBranches outputs (rans.map handedOver) scope meter
    (∀ v, joined.outcome = .ok v ↔ ∃ vs, rans.map Ran.outcome = vs.map .ok ∧ v = .arr vs) ∧
      ∀ failure, joined.outcome = .error failure ↔ firstFailure? rans = some failure := by
  intro joined
  cases hfirst : firstFailure? rans with
  | some chosen =>
    have herror : joined.outcome = .error chosen :=
      joinBranches_of_failure ((branchFailure_handedOver rans).trans hfirst) outputs scope meter
    have hnone (vs : List Value) : rans.map Ran.outcome ≠ vs.map .ok := by
      intro hvalues
      rw [(exists_values_iff rans).mp ⟨vs, hvalues⟩] at hfirst
      cases hfirst
    rw [herror]
    simp [hnone]
  | none =>
    obtain ⟨vs, hvalues⟩ := (exists_values_iff rans).mpr hfirst
    have hok : joined.outcome = .ok (.arr vs) := joinBranches_of_ok hvalues outputs scope meter
    have hinj (ws : List Value) : vs.map (Except.ok (ε := Failure)) = ws.map .ok ↔ vs = ws :=
      List.map_inj_right fun _ _ => Except.ok.inj
    rw [hok, hvalues]
    simp [hinj, eq_comm]

theorem runParallel_of_deep {engine : Engine} {depth : Nat} (h : engine.limits.maxDepth < depth + 1)
    (outputs : List (Option String)) (branches : List Located) (path : Path) :
    engine.runParallel outputs branches path depth =
      refuse ⟨path.key .steps, .depthLimit engine.limits.maxDepth⟩ := by
  rw [runParallel, checkDepth, if_pos h, refuse_bind]

theorem runParallel_eq (engine : Engine) (branches : List Step) (path : Path) {depth : Nat} (scope : Scope)
    (meter : Meter) (hdepth : depth + 1 ≤ engine.limits.maxDepth) :
    engine.runParallel (branches.map Step.output) (engine.runSteps branches) path depth scope meter =
      let rans := engine.attempts (path.key .steps) (depth + 1) scope 0 meter branches
      let joined := joinBranches (branches.map Step.output) (rans.map handedOver) scope (meterAfter meter rans)
      { joined with log := (rans.map Ran.log).flatten ++ joined.log } := by
  have hsettled := settleBranches_eq engine (path.key .steps) (depth + 1) scope 0 meter branches
  have houtcome := congrArg Ran.outcome hsettled
  rw [runParallel, checkDepth, if_neg (Nat.not_lt.mpr hdepth)]
  change (settleBranches _ _ 0 (engine.runSteps branches) >>= joinBranches _) scope meter = _
  rw [bind_of_ok houtcome, hsettled]

/-- The end of a step enters nothing and calls nothing. -/
theorem endStep_quiet (s : Step) (path : Path) (outcome : Except Failure Value) (scope : Scope) (meter : Meter) :
    ∀ moment ∈ (endStep s path outcome scope meter).log, moment.act.entered? = none ∧ moment.act.call? = none := by
  intro moment hmoment
  cases outcome with
  | ok v =>
    rw [endStep] at hmoment
    cases houtput : s.output with
    | none =>
      rw [houtput] at hmoment
      obtain rfl := List.mem_singleton.mp hmoment
      exact ⟨rfl, rfl⟩
    | some name =>
      rw [houtput] at hmoment
      obtain rfl := List.mem_singleton.mp hmoment
      exact ⟨rfl, rfl⟩
  | error failure =>
    rw [endStep] at hmoment
    split at hmoment
    · obtain rfl := List.mem_singleton.mp hmoment
      exact ⟨rfl, rfl⟩
    · cases hmoment

/-- The branches of a parallel step that is not refused are attempted once each, in order and in the scope that it
found. That scope then has what was produced by the branches that succeeded, the last of them having the last word
on a name, whether the step succeeds or fails. It succeeds with the results of all branches in order, or else
fails with the first failure for a limit, or with the first failure if there is no such. -/
theorem runStep_parallel (engine : Engine) (branches : List Step) (output : Option String) (path : Path)
    (depth : Nat) (scope : Scope) (meter : Meter)
    (hbegun : (engine.startStep (.parallel branches output) path depth scope meter).outcome = .ok ())
    (hdepth : depth + 1 ≤ engine.limits.maxDepth) :
    let begun := engine.startStep (.parallel branches output) path depth scope meter
    let rans := engine.attempts (path.key .steps) (depth + 1) scope 0 begun.meter branches
    let kept := scope.setAll (produced branches rans)
    let whole := engine.runStep (.parallel branches output) path depth scope meter
    rans.length = branches.length ∧
    (∃ ended, whole.log = begun.log ++ ((rans.map Ran.log).flatten ++ ended) ∧
      ∀ moment ∈ ended, moment.act.entered? = none ∧ moment.act.call? = none) ∧
    (∀ name, kept.get? name =
      (((produced branches rans).reverse.find? (·.1 = name)).map Prod.snd).or (scope.get? name)) ∧
    (∀ v, whole.outcome = .ok v ↔ ∃ vs, rans.map Ran.outcome = vs.map .ok ∧ v = .arr vs) ∧
    (∀ failure, whole.outcome = .error failure ↔ firstFailure? rans = some failure) ∧
    whole.scope = boundScope output ⟨whole.outcome, kept, whole.meter, whole.log⟩ := by
  intro begun rans kept whole
  let own := engine.runParallel (branches.map Step.output) (engine.runSteps branches) path depth scope begun.meter
  have hown : own = _ := runParallel_eq engine branches path scope begun.meter hdepth
  have hwhole : whole = _ := supervise_of_begun engine (.parallel branches output) _ path depth scope meter hbegun
  have houtcome : whole.outcome = own.outcome := by
    rw [hwhole]
    exact endStep_outcome _ path own.outcome _ _
  obtain ⟨hmerged, -, hsilent⟩ := joinBranches_writes (branches.map Step.output) (rans.map handedOver) scope
    (meterAfter begun.meter rans)
  have hkept : own.scope = kept := by
    rw [hown]
    exact hmerged.trans
      (mergeOutputs_attempts engine (path.key .steps) (depth + 1) scope 0 begun.meter branches scope)
  have hlog : own.log = (rans.map Ran.log).flatten := by
    rw [hown]
    exact (congrArg (_ ++ ·) hsilent).trans (List.append_nil _)
  obtain ⟨hvalues, hfailures⟩ := joinBranches_outcome rans (branches.map Step.output) scope
    (meterAfter begun.meter rans)
  have hjoined : whole.outcome = _ := houtcome.trans (congrArg Ran.outcome hown)
  have hlength := length_attempts engine (path.key .steps) (depth + 1) scope 0 begun.meter branches
  let ended := endStep (.parallel branches output) path own.outcome own.scope own.meter
  have hquiet := endStep_quiet (.parallel branches output) path own.outcome own.scope own.meter
  have hended : whole.log = begun.log ++ ((rans.map Ran.log).flatten ++ ended.log) := by rw [← hlog, hwhole]
  have hscope : whole.scope = boundScope output own :=
    supervise_scope engine (.parallel branches output) _ path depth scope meter hbegun
  refine ⟨hlength, ⟨ended.log, hended, hquiet⟩, Scope.get?_setAll scope _, ?_, ?_, ?_⟩
  · rw [hjoined]
    exact hvalues
  · rw [hjoined]
    exact hfailures
  · rw [hscope, boundScope, boundScope, houtcome, hkept]

/-- Two branches produce the same name, one fails, and the last one meets the limit of depth: that is what the step
fails with, and the later of the two results is kept. -/
theorem runStep_parallel_of_limit :
    let engine : Engine := ⟨.none, .builtin, ⟨100, 1, 300⟩⟩
    let count (items : List Value) : Step := .transform "count" (.arr items) [] (some "x")
    let branches : List Step := [count [], .ability "missing" .null (some "y"), count [.null],
      .conditional (.list []) [count []] [] (some "z")]
    let scope : Scope := .ofFields [("y", .nat 7)]
    let whole := engine.runStep (.parallel branches none) Path.top 0 scope (.fresh .still)
    (∃ failure, whole.outcome = .error failure ∧
      failure.path = ((Path.top.key .steps).index 3).key .thenSteps) ∧
    ["x", "y", "z"].map (fun name => (whole.scope.get? name).map Json.print) = [some "1", some "7", none] := by
  intro engine count branches scope whole
  let rans := engine.attempts (Path.top.key .steps) 1 scope 0
    (engine.startStep (.parallel branches none) Path.top 0 scope (.fresh .still)).meter branches
  obtain ⟨-, -, -, -, hfails, hscope⟩ :=
    runStep_parallel engine branches none Path.top 0 scope (.fresh .still) rfl (by decide)
  have hlimited : (firstFailure? rans).map Failure.path = some (((Path.top.key .steps).index 3).key .thenSteps) := by
    decide +kernel
  obtain ⟨failure, hfirst, hpath⟩ := Option.map_eq_some_iff.mp hlimited
  have hfailed : whole.outcome = .error failure := (hfails failure).mpr hfirst
  have hwhole : whole.scope = scope.setAll (produced branches rans) := by
    rw [hscope, boundScope, hfailed]
  refine ⟨⟨failure, hfailed, hpath⟩, ?_⟩
  simp only [hwhole]
  decide +kernel

end Engine

end Pipewright
