import Pipewright.Proofs.Tally

/-!
# How deep a run may go

Some lists of steps are passed over if they are empty, so a run goes no deeper than the deepest list that it may
enter. Where the limit of depth leaves room for that one it refuses nothing.
-/
namespace Pipewright

/-- The largest of some numbers is within a bound if all of them are. -/
theorem max_le_iff_forall {numbers : List Nat} {n : Nat} : numbers.max?.getD 0 ≤ n ↔ ∀ k ∈ numbers, k ≤ n := by
  cases hmax : numbers.max? with
  | none =>
    obtain rfl := List.max?_eq_none_iff.mp hmax
    simp
  | some largest => exact List.max?_le_iff hmax

namespace Step

/-- Whether a list of a step is passed over if it is empty. -/
def passesOver : Step → Path → Bool
  | .conditional .., _ => true
  | .tryCatch .., below => below == [.key .finallySteps]
  | _, _ => false

/-- Whether a run may enter a list of a step. -/
def mayEnter {α : Type} (s : Step) (list : Path × List α) : Bool := !(s.passesOver list.1 && list.2.isEmpty)

/-- How many levels of lists a run of a step may go down. -/
def reach : Step → Nat := fold fun s lists =>
  ((lists.filter s.mayEnter).map fun list => 1 + list.2.max?.getD 0).max?.getD 0

variable {s : Step} {n depth ceiling : Nat} {list : Path × List Step}

theorem mayEnter_map {α β : Type} (f : α → β) (s : Step) (list : Path × List α) :
    s.mayEnter (list.1, list.2.map f) = s.mayEnter list := by
  simp [mayEnter]

/-- A list and all that is in it stay within a bound. -/
theorem level_le_iff {measure : Step → Nat} {steps : List Step} :
    1 + (steps.map measure).max?.getD 0 ≤ n ↔ 1 ≤ n ∧ ∀ t ∈ steps, 1 + measure t ≤ n := by
  have hall : (steps.map measure).max?.getD 0 ≤ n - 1 ↔ ∀ t ∈ steps, measure t ≤ n - 1 := by
    rw [max_le_iff_forall, List.forall_mem_map]
  constructor
  · intro h
    refine ⟨by omega, fun t ht => ?_⟩
    have hstep := hall.mp (by omega) t ht
    omega
  · rintro ⟨hroom, hsteps⟩
    have hlargest := hall.mpr fun t ht => by
      have hstep := hsteps t ht
      omega
    omega

theorem reach_le_iff : s.reach ≤ n ↔
    ∀ list ∈ s.children, s.mayEnter list → 1 ≤ n ∧ ∀ t ∈ list.2, 1 + t.reach ≤ n := by
  rw [reach, fold_eq, max_le_iff_forall, List.forall_mem_map]
  simp only [List.mem_filter, List.forall_mem_map, and_imp, mayEnter_map]
  exact forall₂_congr fun list _ => forall_congr' fun _ => level_le_iff

theorem nesting_le_iff : s.nesting ≤ n ↔ ∀ list ∈ s.children, 1 ≤ n ∧ ∀ t ∈ list.2, 1 + t.nesting ≤ n := by
  rw [nesting, fold_eq, max_le_iff_forall, List.forall_mem_map, List.forall_mem_map]
  exact forall₂_congr fun list _ => level_le_iff

/-- Empty lists count for the nesting of a step whether they are entered or not. -/
theorem reach_le_nesting (s : Step) : s.reach ≤ s.nesting := by
  induction s using children_induction with
  | h s ih =>
    refine reach_le_iff.mpr fun list hlist _ => ?_
    obtain ⟨hroom, hsteps⟩ := nesting_le_iff.mp (Nat.le_refl s.nesting) list hlist
    exact ⟨hroom, fun t ht => Nat.le_trans (Nat.add_le_add_left (ih list hlist t ht) 1) (hsteps t ht)⟩

/-- A ceiling that has room for what is in reach has room for a list that may be entered. -/
theorem room_of_reach (h : depth + s.reach ≤ ceiling) (hlist : list ∈ s.children) (henter : s.mayEnter list) :
    depth + 1 ≤ ceiling ∧ ∀ t ∈ list.2, depth + 1 + t.reach ≤ ceiling := by
  obtain ⟨hroom, hsteps⟩ := reach_le_iff.mp (Nat.le_refl s.reach) list hlist henter
  refine ⟨by omega, fun t ht => ?_⟩
  have hstep := hsteps t ht
  omega

end Step

/-- How deep a run of a pipeline may go; the top-level list is at depth zero. -/
def PipelineOf.reach (pipeline : Pipeline) : Nat := (pipeline.steps.map Step.reach).max?.getD 0

namespace PipelineOf

variable {pipeline : Pipeline} {n : Nat}

theorem reach_le_iff : pipeline.reach ≤ n ↔ ∀ s ∈ pipeline.steps, s.reach ≤ n := by
  rw [reach, max_le_iff_forall, List.forall_mem_map]

theorem reach_le_maxNesting (pipeline : Pipeline) : pipeline.reach ≤ pipeline.maxNesting := by
  refine reach_le_iff.mpr fun s hs => Nat.le_trans s.reach_le_nesting ?_
  exact List.le_max?_getD_of_mem (List.mem_map_of_mem hs)

end PipelineOf

/-- A limit refuses something in a run with an error of a kind, or the run ends with such an error. -/
def Report.Raises (report : Report) (kind : String) : Prop :=
  (∃ failure ∈ refusals report.log, failure.error.kind = kind) ∨ ∃ info, report.error = some info ∧ info.kind = kind

/-- Whether an act is a refusal by the limit of depth. -/
def Act.exceedsDepth : Act → Bool
  | .refuse failure => failure.error.kind == "DepthLimitExceeded"
  | _ => false

theorem Act.exceedsDepth_of_not_begins {act : Act} (h : act.begins = false) : act.exceedsDepth = false := by
  cases act with
  | tell | call => rfl
  | refuse => cases h

/-- The limit of depth refuses nothing. -/
abbrev Exec.Shallow {α : Type} (x : Exec α) : Prop := x.AtMost Act.exceedsDepth 0

namespace Engine

open Exec

variable (engine : Engine) (path : Path) (depth : Nat)

/-- A step is refused for the time or the budget. -/
theorem shallow_startStep (s : Step) : (engine.startStep s path depth).Shallow := by
  intro scope meter
  cases htime : engine.limits.timeIsUp (meter.clock 0) with
  | true =>
    rw [startStep_of_late engine path depth s scope htime]
    exact Nat.le_refl 0
  | false =>
    by_cases hbudget : meter.stats.stepsExecuted < engine.limits.maxSteps
    · rw [startStep_of_budget engine path depth s scope htime hbudget]
      exact Nat.le_refl 0
    · rw [startStep_of_spent engine path depth s scope htime (Nat.not_lt.mp hbudget)]
      exact Nat.le_refl 0

theorem shallow_supervise (s : Step) {body : Located} (h : (body path depth).Shallow) :
    (engine.supervise s body path depth).Shallow :=
  atMost_supervise engine path depth (fun _ => Act.exceedsDepth_of_not_begins)
    (shallow_startStep engine path depth s) h

/-- A list within the limit is not stopped by it if its steps are not. -/
theorem shallow_runSteps {steps : List Step} (hdepth : depth ≤ engine.limits.maxDepth)
    (h : ∀ s ∈ steps, ∀ path, (engine.runStep s path depth).Shallow) :
    (engine.runList (engine.runSteps steps) path depth).Shallow := by
  refine composes_runList (atMost_composes _) engine path depth (fun hdeep => absurd hdepth (Nat.not_le.mpr hdeep)) ?_
  exact fun _ => forall_mem_runSteps fun s hs i => h s hs (path.index i)

/-- A list of a step is not stopped by the limit of depth if the reach of the step is within it. -/
theorem shallow_child {s : Step} {below : Path} {steps : List Step}
    (hroom : depth + s.reach ≤ engine.limits.maxDepth) (hlist : (below, steps) ∈ s.children)
    (henter : s.mayEnter (below, steps))
    (h : ∀ t ∈ steps, ∀ path depth, depth + t.reach ≤ engine.limits.maxDepth → (engine.runStep t path depth).Shallow) :
    (engine.runList (engine.runSteps steps) path (depth + 1)).Shallow := by
  obtain ⟨hdepth, hsteps⟩ := Step.room_of_reach hroom hlist henter
  exact shallow_runSteps engine path _ hdepth fun t ht path => h t ht path _ (hsteps t ht)

/-- The same of a list that is passed over if it is empty. -/
theorem shallow_child_unlessEmpty {s : Step} {below : Path} {steps : List Step}
    (hroom : depth + s.reach ≤ engine.limits.maxDepth) (hlist : (below, steps) ∈ s.children)
    (h : ∀ t ∈ steps, ∀ path depth, depth + t.reach ≤ engine.limits.maxDepth → (engine.runStep t path depth).Shallow) :
    (engine.runUnlessEmpty (engine.runSteps steps) path (depth + 1)).Shallow := by
  cases steps with
  | nil => exact atMost_pure Value.null
  | cons first rest =>
    have henter : s.mayEnter (below, first :: rest) := by simp [Step.mayEnter]
    exact shallow_child engine path depth hroom hlist henter h

/-- A step whose reach is within the limit of depth is not stopped by it. -/
theorem shallow_runStep (s : Step) : ∀ path depth, depth + s.reach ≤ engine.limits.maxDepth →
    (engine.runStep s path depth).Shallow := by
  have law := atMost_composes Act.exceedsDepth
  have hsort (act : Act) : act.begins = false → act.exceedsDepth = false := Act.exceedsDepth_of_not_begins
  induction s using Step.induction with
  | ability name input output =>
    intro path depth _
    rw [runStep]
    refine shallow_supervise engine path depth _ ?_
    exact composes_runAbility law engine path depth name input (atMost_call engine path hsort name)
  | transform operation input params output =>
    intro path depth _
    rw [runStep]
    refine shallow_supervise engine path depth _ ?_
    exact composes_runTransform law engine path depth operation input params
  | conditional condition whenTrue whenFalse output htrue hfalse =>
    intro path depth hroom
    rw [runStep]
    refine shallow_supervise engine path depth _ ?_
    refine atMost_runConditional engine path depth condition ?_ ?_
    · exact shallow_child_unlessEmpty engine _ depth hroom List.mem_cons_self htrue
    · exact shallow_child_unlessEmpty engine _ depth hroom (List.mem_cons_of_mem _ List.mem_cons_self) hfalse
  | loop input body itemVar indexVar collect output hbody =>
    intro path depth hroom
    rw [runStep]
    refine shallow_supervise engine path depth _ ?_
    refine composes_runLoop law engine path depth input itemVar indexVar collect fun inner _ meter => ?_
    exact shallow_child engine _ depth hroom List.mem_cons_self rfl hbody inner meter
  | parallel branches output hbranches =>
    intro path depth hroom
    rw [runStep]
    refine shallow_supervise engine path depth _ ?_
    obtain ⟨hdepth, hsteps⟩ := Step.room_of_reach hroom List.mem_cons_self rfl
    refine atMost_runParallel engine path depth _ (fun hdeep => absurd hdepth (Nat.not_le.mpr hdeep)) ?_
    refine composes_settleBranches law _ _ (forall_mem_runSteps fun s hs i scope meter => ?_) 0
    exact hbranches s hs _ _ (hsteps s hs) scope meter
  | tryCatch attempt recovery always output hattempt hrecovery halways =>
    intro path depth hroom
    rw [runStep]
    refine shallow_supervise engine path depth _ ?_
    refine atMost_ensuring (n := 0) (m := 0) (atMost_recovering (n := 0) (m := 0) path hsort ?_ ?_) ?_
    · exact shallow_child engine _ depth hroom List.mem_cons_self rfl hattempt
    · refine forall_eq_some_runOption fun steps hsome => ?_
      subst hsome
      exact shallow_child engine _ depth hroom (List.mem_cons_of_mem _ List.mem_cons_self) rfl (hrecovery steps rfl)
    · exact shallow_child_unlessEmpty engine _ depth hroom (List.mem_append_right _ List.mem_cons_self) halways
  | subPipeline pipeline inputs output hsteps =>
    intro path depth hroom
    obtain ⟨name, description, steps, result, limits⟩ := pipeline
    rw [runStep]
    refine shallow_supervise engine path depth _ ?_
    refine atMost_runNested engine path depth result inputs ?_
    exact shallow_child engine _ depth hroom List.mem_cons_self rfl hsteps

/-- A pipeline whose reach is within the limit of depth is not stopped by it. -/
theorem shallow_runTop (pipeline : Pipeline) (hreach : pipeline.reach ≤ engine.limits.maxDepth) (context : Value)
    (clock : Clock) : tally Act.exceedsDepth (engine.runTop pipeline context clock).log ≤ 0 := by
  refine shallow_runSteps engine Path.top 0 (Nat.zero_le _) (fun s hs path => ?_) _ _
  have hroom := PipelineOf.reach_le_iff.mp hreach s hs
  exact shallow_runStep engine s path 0 (by omega)

/-- What limits refuse in a run they refuse in its steps. -/
theorem refusals_runPipeline (pipeline : Pipeline) (context : Value) (clock : Clock) :
    refusals (engine.runPipeline pipeline context clock).log =
      refusals (engine.runTop pipeline context clock).log := by
  rw [runPipeline_log, wholeLog, refusals_append]
  exact List.append_nil _

/-- A run ends with a limit only if this limit has refused something. -/
theorem refusal_of_raises {pipeline : Pipeline} {context : Value} {clock : Clock} {kind : String}
    (hkind : kind ≠ "UnrecoverableStepError") (h : (engine.runPipeline pipeline context clock).Raises kind) :
    ∃ failure ∈ refusals (engine.runTop pipeline context clock).log, failure.error.kind = kind := by
  rcases h with ⟨failure, hrefusal, hfailure⟩ | ⟨info, hinfo, rfl⟩
  · exact ⟨failure, refusals_runPipeline engine pipeline context clock ▸ hrefusal, hfailure⟩
  · obtain ⟨failure, houtcome, rfl⟩ := Report.exists_failure_of_error hinfo
    change failure.escaped.kind ≠ _ at hkind
    have hfatal : failure.error.isFatal := by
      rw [Failure.escaped] at hkind
      split at hkind
      · assumption
      · exact absurd rfl hkind
    have hescaped : failure.escaped = failure.error := if_pos hfatal
    have hrefused := (halts_runTop engine pipeline context clock).refused failure houtcome hfatal
    exact ⟨failure, hrefused, congrArg RunError.kind hescaped.symm⟩

/-- A limit of depth with room for what is in reach of a pipeline is not exceeded. -/
theorem runPipeline_shallow {pipeline : Pipeline} (hreach : pipeline.reach ≤ engine.limits.maxDepth) (context : Value)
    (clock : Clock) : ¬ (engine.runPipeline pipeline context clock).Raises "DepthLimitExceeded" := by
  intro hraises
  obtain ⟨failure, hrefusal, hkind⟩ := refusal_of_raises engine (by decide) hraises
  obtain ⟨moment, hmoment, hact⟩ := mem_refusals.mp hrefusal
  have hnone := List.countP_eq_zero.mp (Nat.le_zero.mp (shallow_runTop engine pipeline hreach context clock))
  refine hnone moment hmoment ?_
  rw [hact]
  exact beq_iff_eq.mpr hkind

end Engine

end Pipewright
