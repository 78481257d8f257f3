import Pipewright.Proofs.Growth
import Pipewright.Proofs.Recovery

/-!
# How jobs end

What can be said of all that a job has done when it ends and of the failure that it ends with, whatever went on while
it waited. A job that goes on from another ends as both allow together; a step ends as its kind does, between its
start and its end; and what branches do beside each other is interleaved.
-/
namespace Pipewright

/-- The failure of an outcome, if it is one. -/
def Failure.of? {α : Type} : Except Failure α → Option Failure
  | .error failure => some failure
  | .ok _ => none

theorem Failure.of?_eq_some {α : Type} {outcome : Except Failure α} {failure : Failure} :
    of? outcome = some failure ↔ outcome = .error failure := by
  cases outcome <;> simp [of?]

/-- What may have been done by the time that something ends, and the failure that it may end with then. -/
abbrev Ending := List Moment → Option Failure → Prop

namespace Job

variable {α β : Type} {allowed first whole : Ending}

/-- Whatever it starts with, and whatever goes on while it waits, a job ends as it may. -/
def EndsAs (allowed : Ending) (x : Job α) : Prop :=
  ∀ scope meter log ended, (x scope meter).Comes log ended → allowed log (Failure.of? ended.1)

theorem endsAs_ofExec {x : Exec α} :
    (ofExec x).EndsAs allowed ↔ ∀ scope meter, allowed (x scope meter).log (Failure.of? (x scope meter).outcome) := by
  refine ⟨fun h scope meter => h scope meter _ _ (.ended _ _ _), fun h scope meter log ended hcomes => ?_⟩
  cases hcomes
  exact h scope meter

/-- A job that does nothing else before it ends with an outcome. -/
theorem endsAs_ofOutcome {outcome : Except Failure α} (h : allowed [] (Failure.of? outcome)) :
    (ofExec (.ofOutcome outcome)).EndsAs allowed :=
  endsAs_ofExec.mpr fun _ _ => h

theorem endsAs_pure {a : α} (h : allowed [] none) : (pure a : Job α).EndsAs allowed := endsAs_ofExec.mpr fun _ _ => h

theorem EndsAs.mono {x : Job α} (h : x.EndsAs first) (hsub : ∀ log ending, first log ending → whole log ending) :
    x.EndsAs whole :=
  fun scope meter log ended hcomes => hsub _ _ (h scope meter log ended hcomes)

/-- A failure ends a job, and else what it goes on with has the last word. -/
theorem endsAs_bind {x : Job α} {next : α → Job β} (hx : x.EndsAs first)
    (hstop : ∀ done failure, first done (some failure) → whole done (some failure))
    (hnext : ∀ a done, first done none → (next a).EndsAs fun more ending => whole (done ++ more) ending) :
    (x >>= next).EndsAs whole := by
  intro scope meter log ended hcomes
  obtain ⟨done, ⟨outcome, final⟩, later, more, hfirst, hsecond, rfl⟩ := Progress.Comes.of_andThen hcomes
  have hdone := hx scope meter done _ hfirst
  cases outcome with
  | error failure =>
    cases hsecond
    rw [List.append_nil]
    exact hstop done failure hdone
  | ok a => exact hnext a done hdone _ _ more ended hsecond

/-- What handles the outcome of a job has the last word. -/
theorem endsAs_settle_bind {x : Job α} {next : Except Failure α → Job β} (hx : x.EndsAs first)
    (hnext : ∀ outcome done, first done (Failure.of? outcome) →
      (next outcome).EndsAs fun more ending => whole (done ++ more) ending) :
    (settle x >>= next).EndsAs whole := by
  intro scope meter log ended hcomes
  rw [settle_bind_apply] at hcomes
  obtain ⟨done, settled, later, more, hfirst, hsecond, rfl⟩ := hcomes.of_andThen
  exact hnext settled.1 done (hx scope meter done settled hfirst) _ _ more ended hsecond

/-- What is made of the value and the scope at the end does not count. -/
theorem EndsAs.ending {x : Job α} (h : x.EndsAs allowed) {f : Except Failure α → Scope → Except Failure β × Scope}
    (hf : ∀ outcome scope, Failure.of? (f outcome scope).1 = Failure.of? outcome) : (x.ending f).EndsAs allowed := by
  intro scope meter log ended hcomes
  obtain ⟨⟨outcome, final⟩, hx, rfl⟩ := Progress.Comes.of_map hcomes
  rw [hf]
  exact h scope meter log _ hx

theorem EndsAs.within {x : Job α} (h : x.EndsAs allowed) (inner : Scope) : (x.within inner).EndsAs allowed :=
  fun scope meter => h.ending (f := fun outcome final => (outcome.map fun a => (a, final), scope))
    (fun outcome _ => by cases outcome <;> rfl) inner meter

theorem EndsAs.transactional {x : Job α} (h : x.EndsAs allowed) : x.transactional.EndsAs allowed :=
  fun scope => h.ending (f := fun outcome final => (outcome, if outcome.toBool then final else scope))
    (fun _ _ => rfl) scope

theorem EndsAs.binding {x : Job α} (h : x.EndsAs allowed) (name : String) (v : Value) :
    (x.binding name v).EndsAs allowed :=
  fun scope => h.ending (f := fun outcome final => (outcome, final.restore name (scope.get? name)))
    (fun _ _ => rfl) (scope.set name v)

end Job

namespace Runtime

open Job

variable (runtime : Runtime) (path : Path) (depth : Nat) {allowed inner whole : Ending}

/-- A call ends without a value only for an ordinary reason, however long it waits. -/
theorem endsAs_await (name : String) (reply : Reply)
    (herror : ∀ error, error.isFatal = false → allowed [] (some ⟨path, error⟩)) (hok : allowed [] none) :
    (await path name reply).EndsAs allowed := by
  induction reply with
  | answer result =>
    refine endsAs_ofOutcome ?_
    cases result with
    | error cause => exact herror _ rfl
    | ok v => exact hok
  | pending later ih =>
    intro scope meter log ended hcomes
    cases hcomes with
    | waiting next hcomes => exact ih next.calls scope next _ ended hcomes

/-- A step that calls a service has done nothing else when it ends. -/
theorem endsAs_runAbility (name : String) (input : Value)
    (herror : ∀ error done, error.isFatal = false → (∀ moment ∈ done, ∃ made, moment.act = .call made) →
      allowed done (some ⟨path, error⟩))
    (hok : ∀ done, (∀ moment ∈ done, ∃ made, moment.act = .call made) → allowed done none) :
    (runtime.runAbility name input path depth).EndsAs allowed := by
  intro scope meter log ended hcomes
  rcases runAbility_cases runtime path depth name input scope meter with
    ⟨error, hordinary, heq⟩ | ⟨made, reply, heq⟩
  · rw [heq] at hcomes
    cases hcomes
    exact herror error [] hordinary nofun
  · rw [heq] at hcomes
    obtain ⟨rest, rfl, hrest⟩ := hcomes.of_after
    have hcalled : ∀ moment ∈ [Moment.mk (.call made) (meter.remember made)] ++ [], ∃ made, moment.act = .call made :=
      List.forall_mem_singleton.mpr ⟨made, rfl⟩
    have hawait : (await path name reply).EndsAs fun more ending =>
        allowed ([⟨.call made, meter.remember made⟩] ++ more) ending :=
      endsAs_await path name reply (fun error hordinary => herror error _ hordinary hcalled) (hok _ hcalled)
    exact hawait _ _ rest ended hrest

/-- A step that is refused ends so. One that starts ends as its kind does, with its start before that and its end
after it. -/
theorem endsAs_supervise (s : Step) {body : LocatedJob} (hbody : (body path depth).EndsAs inner)
    (hrefused : ∀ error meter, runtime.limits.Refuses meter error →
      whole [⟨.refuse ⟨path, error⟩, meter⟩] (some ⟨path, error⟩))
    (hended : ∀ done outcome begun scope meter, inner done (Failure.of? outcome) →
      whole (⟨.tell (.stepStarted path s.kind s.describe depth), begun⟩ ::
        (done ++ (Engine.endStep s path outcome scope meter).log)) (Failure.of? outcome)) :
    (runtime.supervise s body path depth).EndsAs whole := by
  intro scope meter log ended hcomes
  rcases Engine.startStep_cases runtime.admission path depth s scope meter with ⟨error, hrefuses, heq⟩ | ⟨-, heq⟩
  · rw [supervise_of_refused runtime body heq rfl] at hcomes
    cases hcomes
    exact hrefused error meter.tick hrefuses
  · rw [supervise_of_begun runtime body heq rfl] at hcomes
    obtain ⟨rest, rfl, hrest⟩ := hcomes.of_after
    obtain ⟨done, settled, later, _, hdone, hlast, rfl⟩ := hrest.of_andThen
    cases hlast
    have hsettled := hbody _ _ done settled hdone
    rw [Engine.endStep_outcome]
    exact hended done settled.1 _ settled.2 later hsettled

/-- The first branch ends, and so do the others, each of them as if it did so on its own. -/
theorem comes_branchesFrom_cons {scope : Scope} {i : Nat} {branch : LocatedJob} {rest : List LocatedJob}
    {meter : Meter} {log : List Moment} {outcomes : List Engine.BranchOutcome}
    (h : (branchesFrom path depth scope i (branch :: rest) meter).Comes log outcomes) :
    ∃ first more outcome final others later,
      (branch (path.index i) depth scope meter).Comes first (outcome, final) ∧
      (branchesFrom path depth scope (i + 1) rest later).Comes more others ∧
      Interleaved first more log ∧ outcomes = (outcome.map fun v => (v, final)) :: others := by
  obtain ⟨⟨⟨outcome, final⟩, others⟩, hcomes, rfl⟩ := Progress.Comes.of_map h
  obtain ⟨first, more, hfirst, hmore, hlog⟩ := hcomes.of_beside
  exact ⟨first, more, outcome, final, others, _, hfirst, hmore, hlog, rfl⟩

/-- Joining branches only passes on the failure that is to blame. -/
theorem endsAs_joinBranches (outputs : List (Option String)) {outcomes : List Engine.BranchOutcome}
    (h : allowed [] (Engine.branchFailure? outcomes)) :
    (ofExec (Engine.joinBranches outputs outcomes)).EndsAs allowed := by
  refine endsAs_ofExec.mpr fun scope meter => ?_
  rw [Engine.joinBranches]
  cases hfailure : Engine.branchFailure? outcomes with
  | none =>
    rw [hfailure] at h
    exact h
  | some failure =>
    rw [hfailure] at h
    exact h

/-- Branches are refused together, or end with the failure that is to blame. -/
theorem endsAs_runParallel (outputs : List (Option String)) {branches : List LocatedJob}
    (hdeep : ∀ meter, allowed [⟨.refuse ⟨path.key .steps, .depthLimit runtime.limits.maxDepth⟩, meter⟩]
      (some ⟨path.key .steps, .depthLimit runtime.limits.maxDepth⟩))
    (hbranches : ∀ scope meter log outcomes,
      (branchesFrom (path.key .steps) (depth + 1) scope 0 branches meter).Comes log outcomes →
      allowed log (Engine.branchFailure? outcomes)) :
    (runtime.runParallel outputs branches path depth).EndsAs allowed := by
  rw [runParallel, Engine.checkDepth]
  split
  · rw [refuse_bind]
    refine endsAs_ofExec.mpr fun _ meter => ?_
    exact hdeep meter
  · have hchecked : (ofExec (pure ())).EndsAs fun log ending => log = [] ∧ ending = none :=
      endsAs_ofExec.mpr fun _ _ => ⟨rfl, rfl⟩
    refine endsAs_bind hchecked (fun _ _ h => absurd h.2 (Option.some_ne_none _))
      fun _ done hdone scope meter log ended hcomes => ?_
    obtain ⟨settled, _, later, joined, hsettled, hjoined, rfl⟩ := Progress.Comes.of_andThen hcomes
    obtain ⟨outcomes, houtcomes, rfl⟩ := Progress.Comes.of_map hsettled
    have hallowed := hbranches scope meter settled outcomes houtcomes
    have hend : (ofExec (Engine.joinBranches outputs outcomes)).EndsAs fun more ending =>
        allowed (settled ++ more) ending :=
      endsAs_joinBranches outputs ((List.append_nil settled).symm ▸ hallowed)
    rw [hdone.1]
    exact hend scope later joined ended hjoined

end Runtime

end Pipewright
