import Pipewright.Proofs.Accounting

/-!
# Limits cannot be caught

What follows a refusal in the log of a run: no recovering list and no list that runs in any case, around the place
of the refusal, is entered any more, and the run reports a limit. After the budget of steps has refused one, no
step starts at all.
-/
namespace Pipewright

/-- The keys of the lists that a step holds which protects one of them. -/
def Key.protecting : List Key := [.trySteps, .catchSteps, .finallySteps]

namespace Path

variable {step list earlier later place : Path} {part other : Key} {i j : Nat}

theorem key_inj (h : key step part = key list other) : part = other :=
  Selector.key.inj (List.append_singleton_inj.mp h).2

theorem index_inj (h : index list i = index list j) : i = j :=
  Selector.index.inj (List.append_singleton_inj.mp h).2

/-- The keys of a step lead to different places. -/
theorem key_unique (hpart : key step part <+: place) (hother : key step other <+: place) : part = other := by
  have hlength : (key step part).length = (key step other).length := by simp [key]
  have hin := List.prefix_of_prefix_length_le hpart hother (Nat.le_of_eq hlength)
  exact key_inj (hin.eq_of_length hlength)

theorem index_unique (hi : index list i <+: place) (hj : index list j <+: place) : i = j := by
  have hlength : (index list i).length = (index list j).length := by simp [index]
  have hin := List.prefix_of_prefix_length_le hi hj (Nat.le_of_eq hlength)
  exact index_inj (hin.eq_of_length hlength)

/-- What stands beside a place in a list of a step is outside of the step, or deep inside the same list. -/
theorem Beside.outside_or_deep (h : Beside earlier later) (hpart : key step part <+: earlier)
    (hsteps : part ≠ .steps) :
    ¬ step <+: later ∨ ∃ inner j, key step part <+: inner ∧ index (key inner .steps) j <+: later := by
  obtain ⟨inner, i, j, hij, hearlier, hlater⟩ := h
  rcases List.prefix_or_prefix_of_prefix hpart hearlier with hin | hout
  · right
    refine ⟨inner, j, ?_, hlater⟩
    rcases List.prefix_concat_iff.mp hin with heq | hin
    · exact absurd (List.append_singleton_inj.mp heq).2 nofun
    · rcases List.prefix_concat_iff.mp hin with heq | hin
      · exact absurd (key_inj heq) hsteps
      · exact hin
  · -- The branches part at or above the step, so only one of them leads to it.
    left
    intro hstep
    rcases List.prefix_concat_iff.mp hout with heq | hout
    · exact absurd (List.append_singleton_inj.mp heq).2 nofun
    · exact absurd (index_unique (hout.trans hstep) hlater) (Nat.ne_of_lt hij)

/-- Neither the step itself nor a member of one of its lists stands beside a place in its lists. -/
theorem Beside.not_near (h : Beside earlier later) (hpart : key step part <+: earlier) (hsteps : part ≠ .steps)
    (hstep : step <+: later) : step.length + 2 < later.length := by
  rcases h.outside_or_deep hpart hsteps with hout | ⟨inner, j, hinner, hlater⟩
  · exact absurd hstep hout
  · have hshort := hinner.length_le
    have hlong := hlater.length_le
    simp only [key, index, List.length_append, List.length_singleton] at hshort hlong
    omega

/-- Other lists of the step hold nothing that stands beside the place. -/
theorem Beside.same_list (h : Beside earlier later) (hpart : key step part <+: earlier) (hsteps : part ≠ .steps)
    (hother : key step other <+: later) : part = other := by
  rcases h.outside_or_deep hpart hsteps with hout | ⟨inner, j, hinner, hlater⟩
  · exact absurd ((List.prefix_append _ _).trans hother) hout
  · have hdeep : inner <+: later := ((List.prefix_append _ _).trans (List.prefix_append _ _)).trans hlater
    exact key_unique (hinner.trans hdeep) hother

end Path

/-- What a limit refuses with is reported under its own name. -/
theorem Limits.Refuses.kind_mem {limits : Limits} {meter : Meter} {failure : Failure}
    (h : limits.Refuses meter failure.error) :
    failure.escaped.kind ∈ ["StepLimitExceeded", "DepthLimitExceeded", "TimeoutExceeded"] := by
  obtain ⟨path, error⟩ := failure
  cases error with
  | stepBudget => exact List.mem_cons_self
  | depthLimit => exact List.mem_cons_of_mem _ List.mem_cons_self
  | timeout => exact List.mem_cons_of_mem _ (List.mem_cons_of_mem _ List.mem_cons_self)
  | _ => exact h.elim

namespace Engine

variable (engine : Engine) (pipeline : Pipeline) (context : Value) (clock : Clock)

/-- A whole run is ended by limits as its steps are. -/
theorem halts_runPipeline :
    Ran.Halts { engine.runTop pipeline context clock with
      log := (engine.runPipeline pipeline context clock).log } := by
  rw [runPipeline_log]
  have hsteps := halts_runTop engine pipeline context clock
  have hstarted : refusals [⟨.tell (.pipelineStarted (pipeline.name.getD anonymous) pipeline.totalSteps),
    .fresh clock⟩] = [] := rfl
  refine (hsteps.prepend hstarted).extend fun moment hmoment => ?_
  obtain rfl := List.mem_singleton.mp hmoment
  exact ⟨rfl, rfl⟩

/-- A run in which a limit refuses anything reports a limit. -/
theorem error_of_refusal {moment : Moment} (hmoment : moment ∈ (engine.runPipeline pipeline context clock).log)
    {refusal : Failure} (hrefusal : moment.act = .refuse refusal) :
    ∃ failure meter, (engine.runTop pipeline context clock).outcome = .error failure ∧
      engine.limits.Refuses meter failure.error := by
  have hhalts := halts_runPipeline engine pipeline context clock
  obtain ⟨failure, houtcome, hfatal⟩ := hhalts.halted refusal (mem_refusals.mpr ⟨moment, hmoment, hrefusal⟩)
  obtain ⟨last, hlast, hlastRefusal⟩ := mem_refusals.mp (hhalts.refused failure houtcome hfatal)
  have hgrows := grows_runPipeline engine pipeline context clock
  exact ⟨failure, last.meter, houtcome, hgrows.refused hlast hlastRefusal⟩

/-- From a refusal on no step that protects a list around it recovers, and none of the steps in its lists starts;
the run ends with the error of a limit. After a refusal by the budget of steps nothing starts. -/
theorem runPipeline_refusal :
    let report := engine.runPipeline pipeline context clock
    ∀ past failure meter future, report.log = past ++ ⟨.refuse failure, meter⟩ :: future →
      (report.succeeded = false ∧ report.result = .null ∧ ∃ info, report.error = some info ∧
        info.kind ∈ ["StepLimitExceeded", "DepthLimitExceeded", "TimeoutExceeded"]) ∧
      (∀ step, ∀ part ∈ Key.protecting, Path.key step part <+: failure.path → ∀ moment ∈ future,
        (∀ failed message, moment.act ≠ .tell (.errorRecovered step failed message)) ∧
        ∀ place kind description depth, moment.act = .tell (.stepStarted place kind description depth) →
          (∀ list i, place ≠ (Path.key step list).index i) ∧
          ∀ list, list ≠ part → ¬ Path.key step list <+: place) ∧
      (∀ limit, failure.error = .stepBudget limit → ∀ moment ∈ future, ∀ place kind description depth,
        moment.act ≠ .tell (.stepStarted place kind description depth)) := by
  intro report past failure meter future hlog
  have hmoment : (⟨.refuse failure, meter⟩ : Moment) ∈ report.log :=
    hlog ▸ List.mem_append_right _ List.mem_cons_self
  refine ⟨?_, ?_, ?_⟩
  · obtain ⟨last, meter, houtcome, hrefuses⟩ := error_of_refusal engine pipeline context clock hmoment rfl
    have hreport : report = _ := runPipeline_of_error engine pipeline context clock houtcome
    rw [hreport]
    exact ⟨rfl, rfl, _, rfl, hrefuses.kind_mem⟩
  · intro step part hpart hin moment hfuture
    have hsteps : part ≠ .steps := by
      rintro rfl
      revert hpart
      decide
    have hyields : (⟨.refuse failure, meter⟩ : Moment).Yields moment := by
      have hpairs : report.log.Pairwise Moment.Yields := (halts_runPipeline engine pipeline context clock).yields
      rw [hlog] at hpairs
      exact (List.pairwise_cons.mp (List.pairwise_append.mp hpairs).2.1).1 moment hfuture
    have hbeside {place : Path} (hentered : moment.act.entered? = some place) : Path.Beside failure.path place :=
      hyields failure rfl place hentered
    refine ⟨fun failed message hrecovered => ?_, fun place kind description depth hstarted => ⟨?_, ?_⟩⟩
    · have hnear := (hbeside (by rw [hrecovered]; rfl)).not_near hin hsteps List.prefix_rfl
      omega
    · rintro list i rfl
      have hnear := (hbeside (by rw [hstarted]; rfl)).not_near hin hsteps
        ((List.prefix_append _ _).trans (List.prefix_append _ _))
      simp only [List.length_append, List.length_singleton] at hnear
      omega
    · intro list hlist hlater
      exact hlist ((hbeside (by rw [hstarted]; rfl)).same_list hin hsteps hlater).symm
  · intro limit hlimit moment hfuture place kind description depth hstarted
    have hspent := (grows_runPipeline engine pipeline context clock).spent (Nat.zero_le _) hlog rfl hlimit
    have hnone := List.filterMap_eq_nil_iff.mp hspent.2 moment hfuture
    rw [hstarted] at hnone
    cases hnone

/-- The depth limit strikes in the first of two branches inside a protected list: the second one still runs, and
the protecting step does not recover. -/
theorem runPipeline_refusal_beside :
    let shout : Step := .transform "count" (.arr []) [] none
    let nested : Step := .conditional (.list []) [shout] [] none
    let pipeline : Pipeline :=
      ⟨none, none, [.tryCatch [.parallel [nested, shout] none] (some [shout]) [shout] none], none, none⟩
    let report := runPipeline ⟨.none, .builtin, ⟨100, 2, 300⟩⟩ pipeline .null
    startedTypes report.log = ["try_catch", "parallel", "conditional", "transform"] ∧
    ∃ past failure meter future, report.log = past ++ ⟨.refuse failure, meter⟩ :: future ∧
      Path.key (Path.top.index 0) .trySteps <+: failure.path ∧
      report.succeeded = false ∧
      ∀ moment ∈ future, ∀ failed message,
        moment.act ≠ .tell (.errorRecovered (Path.top.index 0) failed message) := by
  intro shout nested pipeline report
  let struck : Path := [.key .steps, .index 0, .key .trySteps, .index 0, .key .steps, .index 0, .key .thenSteps]
  have hpath : struck ∈ (refusals report.log).map Failure.path := by decide +kernel
  obtain ⟨failure, hfailure, hstruck⟩ := List.mem_map.mp hpath
  obtain ⟨⟨act, meter⟩, hmoment, rfl⟩ := mem_refusals.mp hfailure
  obtain ⟨past, future, hlog⟩ := List.append_of_mem hmoment
  have hin : Path.key (Path.top.index 0) .trySteps <+: failure.path := by
    rw [hstruck]
    exact ⟨struck.drop 3, rfl⟩
  have hrefusal := runPipeline_refusal _ pipeline .null .still past failure meter future hlog
  refine ⟨by decide +kernel, past, failure, meter, future, hlog, hin, hrefusal.1.1, fun moment hfuture => ?_⟩
  exact (hrefusal.2.1 _ .trySteps List.mem_cons_self hin moment hfuture).1

end Engine

end Pipewright
