import Pipewright.Proofs.Endings
import Pipewright.Proofs.Halting

/-!
# What a run counts

The statistics of a run are read off its log: as many steps are counted as were told to start, of each type and
in all, and abilities are called only by steps of theirs. This holds at every moment of the run and not at its
end only; the budget of steps and the limit of depth are kept throughout.
-/
namespace Pipewright

/-- The types of the steps that started, oldest first. -/
def startedTypes (log : List Moment) : List String := log.filterMap fun moment => moment.act.startedType?

/-- The calls of abilities in a log, oldest first. -/
def callsIn (log : List Moment) : List Call := log.filterMap fun moment => moment.act.call?

@[simp] theorem startedTypes_append (first second : List Moment) :
    startedTypes (first ++ second) = startedTypes first ++ startedTypes second :=
  List.filterMap_append

@[simp] theorem callsIn_append (first second : List Moment) :
    callsIn (first ++ second) = callsIn first ++ callsIn second :=
  List.filterMap_append

/-- The meter counts what a log tells. -/
structure Counts (before : Meter) (log : List Moment) (after : Meter) : Prop where
  steps : after.stats.stepsExecuted = before.stats.stepsExecuted + (startedTypes log).length
  types : ∀ type, after.stats.countFor type = before.stats.countFor type + (startedTypes log).count type
  total : after.stats.total = before.stats.total + (startedTypes log).length
  calls : after.calls = before.calls ++ callsIn log
  called : (callsIn log).length ≤ (startedTypes log).count StepKind.ability.name

namespace Counts

variable {before between after : Meter} {first second log : List Moment}

theorem append (hfirst : Counts before first between) (hsecond : Counts between second after) :
    Counts before (first ++ second) after := by
  constructor
  · rw [hsecond.steps, hfirst.steps, startedTypes_append, List.length_append, Nat.add_assoc]
  · intro type
    rw [hsecond.types, hfirst.types, startedTypes_append, List.count_append, Nat.add_assoc]
  · rw [hsecond.total, hfirst.total, startedTypes_append, List.length_append, Nat.add_assoc]
  · rw [hsecond.calls, hfirst.calls, callsIn_append, List.append_assoc]
  · rw [callsIn_append, startedTypes_append, List.length_append, List.count_append]
    exact Nat.add_le_add hfirst.called hsecond.called

/-- Where no step starts and no ability is called, nothing is counted. -/
theorem of_eq_nil (hstarted : startedTypes log = []) (hcalls : callsIn log = [])
    (steps : after.stats.stepsExecuted = before.stats.stepsExecuted)
    (types : after.stats.stepsByType = before.stats.stepsByType) (calls : after.calls = before.calls) :
    Counts before log after := by
  constructor
  · rw [hstarted, steps, List.length_nil, Nat.add_zero]
  · intro type
    rw [hstarted, Stats.countFor, types, List.count_nil, Nat.add_zero, Stats.countFor]
  · rw [hstarted, Stats.total, types, List.length_nil, Nat.add_zero, Stats.total]
  · rw [hcalls, calls, List.append_nil]
  · rw [hcalls]
    exact Nat.zero_le _

theorem start (path : Path) (meter : Meter) (kind : StepKind) (description : String) (depth : Nat) :
    Counts meter [⟨.tell (.stepStarted path kind description depth), meter.record kind⟩] (meter.record kind) where
  steps := rfl
  types type := by
    change (meter.stats.record kind.name).countFor type = _ + [kind.name].count type
    rw [Stats.countFor_record, List.count_singleton]
    simp
  total := Stats.total_record meter.stats kind.name
  calls := (List.append_nil _).symm
  called := Nat.zero_le _

/-- The call of an ability comes with the start of its step. -/
theorem startCall (path : Path) (meter : Meter) (description : String) (depth : Nat) (call : Call) :
    Counts meter
      [⟨.tell (.stepStarted path .ability description depth), meter.record .ability⟩,
        ⟨.call call, (meter.record .ability).remember call⟩]
      ((meter.record .ability).remember call) where
  steps := rfl
  types := (start path meter .ability description depth).types
  total := (start path meter .ability description depth).total
  calls := rfl
  called := Nat.le_of_eq List.count_singleton_self.symm

end Counts

namespace Grows

variable {limits : Limits} {path : Path} {before after : Meter} {log : List Moment}

theorem counts (h : Grows limits path before log after) : Counts before log after := by
  induction h with
  | nil | tick | observe | refuse => exact .of_eq_nil rfl rfl rfl rfl rfl
  | append _ _ ihfirst ihsecond => exact ihfirst.append ihsecond
  | inside _ _ ih => exact ih
  | start path meter kind description => exact .start path meter kind description _
  | startCall path meter description call => exact .startCall path meter description _ call
  | @tell _ meter event hstart =>
    have hstarted : startedTypes [⟨.tell event, meter⟩] = [] :=
      List.filterMap_eq_nil_iff.mpr fun moment hmoment => List.mem_singleton.mp hmoment ▸ hstart
    exact .of_eq_nil hstarted rfl rfl rfl rfl

/-- The budget of steps is kept. -/
theorem budget (h : Grows limits path before log after) (hbefore : before.stats.stepsExecuted ≤ limits.maxSteps) :
    after.stats.stepsExecuted ≤ limits.maxSteps := by
  induction h with
  | nil | tick | observe | tell | refuse => exact hbefore
  | append _ _ ihfirst ihsecond => exact ihsecond (ihfirst hbefore)
  | inside _ _ ih => exact ih hbefore
  | start _ _ _ _ _ hbudget | startCall _ _ _ _ _ hbudget => exact hbudget

/-- When the budget refuses a step, exactly as many steps have run as it allows, and none starts any more. -/
theorem spent (h : Grows limits path before log after) (hbefore : before.stats.stepsExecuted ≤ limits.maxSteps)
    {past future : List Moment} {moment : Moment} (hlog : log = past ++ moment :: future) {failure : Failure}
    {limit : Nat} (hrefusal : moment.act = .refuse failure) (herror : failure.error = .stepBudget limit) :
    after.stats.stepsExecuted = limits.maxSteps ∧ startedTypes future = [] := by
  have hmoment : moment ∈ log := hlog ▸ List.mem_append_right _ List.mem_cons_self
  have hrefused := h.refused hmoment hrefusal
  rw [herror] at hrefused
  have hpast := (h.upTo hlog).counts.steps
  have hall := h.counts.steps
  have hbudget := h.budget hbefore
  have hsplit : log = (past ++ [moment]) ++ future := by rw [hlog, List.append_assoc, List.singleton_append]
  rw [hsplit, startedTypes_append, List.length_append] at hall
  have hspent := hrefused.2
  exact ⟨by omega, List.eq_nil_of_length_eq_zero (by omega)⟩

end Grows

/-- What a log, the statistics and the calls of a run have to do with each other and with the limits. -/
structure Accounts (limits : Limits) (log : List Moment) (stats : Stats) (made : List Call) : Prop where
  budget : stats.stepsExecuted ≤ limits.maxSteps
  steps : stats.stepsExecuted = (startedTypes log).length
  types : ∀ type, stats.countFor type = (startedTypes log).count type
  total : stats.total = stats.stepsExecuted
  calls : made = callsIn log
  called : made.length ≤ stats.countFor StepKind.ability.name
  depth : ∀ moment ∈ log, ∀ path kind description depth,
    moment.act = .tell (.stepStarted path kind description depth) → depth ≤ limits.maxDepth

theorem Grows.accounts {limits : Limits} {path : Path} {clock : Clock} {log : List Moment} {meter : Meter}
    (h : Grows limits path (.fresh clock) log meter) : Accounts limits log meter.stats meter.calls := by
  have hcounts := h.counts
  have hsteps : meter.stats.stepsExecuted = (startedTypes log).length := hcounts.steps.trans (Nat.zero_add _)
  have htypes (type : String) : meter.stats.countFor type = (startedTypes log).count type :=
    (hcounts.types type).trans (Nat.zero_add _)
  have hcalls : meter.calls = callsIn log := hcounts.calls.trans (List.nil_append _)
  refine ⟨h.budget (Nat.zero_le _), hsteps, htypes, ?_, hcalls, ?_, fun _ hm _ _ _ _ => h.depth hm⟩
  · rw [hsteps]
    exact hcounts.total.trans (Nat.zero_add _)
  · rw [hcalls, htypes]
    exact hcounts.called

namespace Failure

end Failure

/-- A failure for the budget of steps has been refused for it. -/
def BudgetRefused : Ending := fun log ending =>
  ∀ failure limit, ending = some failure → failure.error = .stepBudget limit → failure ∈ refusals log

namespace BudgetRefused

variable {log more all : List Moment} {ending : Option Failure} {failure : Failure}

theorem none (log : List Moment) : BudgetRefused log .none := nofun

theorem refused (failure : Failure) (meter : Meter) : BudgetRefused [⟨.refuse failure, meter⟩] (some failure) := by
  rintro _ limit ⟨⟩ -
  exact List.mem_singleton.mpr rfl

theorem mono (h : BudgetRefused log ending) (hsub : log ⊆ all) : BudgetRefused all ending :=
  fun failure limit hending herror => List.filterMap_subset _ hsub (h failure limit hending herror)

theorem extend (h : BudgetRefused log ending) (more : List Moment) : BudgetRefused (log ++ more) ending :=
  h.mono (List.subset_append_left _ _)

theorem prepend (h : BudgetRefused more ending) (log : List Moment) : BudgetRefused (log ++ more) ending :=
  h.mono (List.subset_append_right _ _)

end BudgetRefused

namespace Job

variable {α β : Type} {x : Job α}

end Job

namespace Runtime

open Job

variable (runtime : Runtime) (path : Path) (depth : Nat)

variable (pipeline : Pipeline) (context : Value) (clock : Clock)

/-- A transform that forges the failure of the budget ends a run before the budget is spent. -/
example :
    let forged : TransformFn := fun _ _ => .error (.stepBudget 5)
    let runtime : Runtime := ⟨⟨fun _ => none⟩, Registry.empty.register "forged" forged, .standard⟩
    let report := runtime.runPipeline ⟨none, none, [.transform "forged" .null [] none], none, none⟩ .null
    report.error.map ErrorInfo.kind = some "StepLimitExceeded" ∧ report.stats.stepsExecuted = 1 := by
  decide +kernel

end Runtime

/-- The statistics of a run of an engine are those of its log. -/
theorem Engine.accounts_runPipeline (engine : Engine) (pipeline : Pipeline) (context : Value) (clock : Clock) :
    let report := engine.runPipeline pipeline context clock
    Accounts engine.limits report.log report.stats report.calls := by
  intro report
  rw [runPipeline_stats, runPipeline_calls]
  exact (grows_runPipeline engine pipeline context clock).accounts

end Pipewright
