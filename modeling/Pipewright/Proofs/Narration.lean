import Pipewright.Proofs.Branches
import Pipewright.Proofs.Promptness
import Pipewright.Proofs.TraceGrammar

/-!
# What runs tell

Every run tells a trace of its pipeline. Each kind of step tells what the grammar derives for it, from what its lists
tell; so this holds of all steps at all places, whatever scope and meter they start with, whatever goes on while they
wait, and however they end.
-/
namespace Pipewright

namespace Ran

variable {α : Type} {ran : Ran α}

theorem failure?_of_error {failure : Failure} (h : ran.outcome = .error failure) : ran.failure? = some failure := by
  rw [failure?, h]

theorem failure?_eq_some {failure : Failure} : ran.failure? = some failure ↔ ran.outcome = .error failure := by
  rw [failure?]
  cases ran.outcome <;> simp

theorem failure?_congr {β : Type} {other : Ran β}
    (h : ∀ failure, ran.outcome = .error failure ↔ other.outcome = .error failure) :
    ran.failure? = other.failure? :=
  Option.ext fun failure => by rw [failure?_eq_some, failure?_eq_some, h failure]

theorem failure?_eq : ran.failure? = Failure.of? ran.outcome := by
  rw [failure?]
  cases ran.outcome <;> rfl

end Ran

/-- Which events may be told before which ending. -/
abbrev Telling := List (Event Path) → Option Failure → Prop

/-- From wherever it starts, an execution tells and ends as it may. -/
def Exec.Tells {α : Type} (allowed : Telling) (x : Exec α) : Prop :=
  ∀ scope meter, allowed (eventsIn (x scope meter).log) (x scope meter).failure?

namespace Job

variable {α β : Type} {allowed : Telling}

/-- From wherever it starts, and whatever goes on while it waits, a job tells and ends as it may. -/
def Tells (allowed : Telling) (x : Job α) : Prop := x.EndsAs fun log ending => allowed (eventsIn log) ending

/-- What a job tells the execution tells that it comes to. -/
theorem Tells.exec {waits : Prop} {x : Job α} (h : x.Tells allowed) {y : Exec α} (hy : x.Realizes waits y) :
    y.Tells allowed := by
  intro scope meter
  rw [Ran.failure?_eq, ← hy.finish]
  exact h scope meter _ _ (Progress.Comes.finish _)

theorem tells_bind {first second whole : Telling} {x : Job α} {next : α → Job β} (hx : x.Tells first)
    (hnext : ∀ a, (next a).Tells second)
    (hstop : ∀ told failure, first told (some failure) → whole told (some failure))
    (hgo : ∀ told more ending, first told none → second more ending → whole (told ++ more) ending) :
    (x >>= next).Tells whole := by
  refine endsAs_bind hx (fun done => hstop (eventsIn done)) fun a done hdone => ?_
  refine (hnext a).mono fun more ending hmore => ?_
  rw [eventsIn_append]
  exact hgo _ _ _ hdone hmore

/-- What becomes of a value tells nothing. -/
theorem tells_map {x : Job α} (hx : x.Tells allowed) (f : α → β) : (x >>= fun a => pure (f a)).Tells allowed := by
  have hpure (a : α) : (pure (f a) : Job β).Tells fun more ending => more = [] ∧ ending = none :=
    endsAs_pure ⟨rfl, rfl⟩
  refine tells_bind hx hpure (fun _ _ => id) ?_
  rintro told _ _ htold ⟨rfl, rfl⟩
  rwa [List.append_nil]

/-- What is done silently first may fail as the whole may. -/
theorem tells_bind_right {x : Job α} {next : α → Job β}
    (hx : x.Tells fun told ending => told = [] ∧ ∀ failure, ending = some failure → allowed [] ending)
    (hnext : ∀ a, (next a).Tells allowed) : (x >>= next).Tells allowed := by
  refine tells_bind hx hnext ?_ ?_
  · rintro _ failure ⟨rfl, hfailure⟩
    exact hfailure failure rfl
  · rintro _ _ _ ⟨rfl, -⟩ hmore
    exact hmore

/-- An ordinary error ends a job before it tells anything. -/
theorem tells_lift_bind {path : Path} {result : Except RunError α} {next : α → Job β} (hresult : Ordinary result)
    (herror : ∀ error, error.isFatal = false → allowed [] (some ⟨path, error⟩)) (hnext : ∀ a, (next a).Tells allowed) :
    (ofExec (.lift path result) >>= next).Tells allowed := by
  refine tells_bind_right (endsAs_ofOutcome ⟨rfl, fun failure hfailure => ?_⟩) hnext
  cases result with
  | error error => exact herror error (hresult error rfl)
  | ok a => cases hfailure

theorem tells_scope_bind {next : Scope → Job β} (hnext : ∀ scope, (next scope).Tells allowed) :
    (ofExec Exec.scope >>= next).Tells allowed :=
  tells_bind_right (endsAs_ofExec.mpr fun _ _ => ⟨rfl, nofun⟩) hnext

end Job

namespace Engine

/-- The end of a step tells of it, but for the failure of a step inside. -/
theorem eventsIn_endStep (s : Step) (path : Path) (outcome : Except Failure Value) (scope : Scope) (meter : Meter) :
    eventsIn (endStep s path outcome scope meter).log =
      match outcome with
      | .ok _ => [.stepCompleted path s.kind]
      | .error failure => if failure.path = path then [.stepFailed path failure.error.message] else [] := by
  cases outcome with
  | ok v =>
    rw [endStep]
    cases s.output <;> rfl
  | error failure =>
    rw [endStep]
    by_cases hown : failure.path = path
    · simp only [hown, if_true]
      rfl
    · simp only [hown, if_false]
      rfl

/-- What one more branch fails with counts unless the others fail for a limit. -/
theorem branchFailure?_cons (outcome : BranchOutcome) (outcomes : List BranchOutcome) :
    branchFailure? (outcome :: outcomes) = Failure.graver (Failure.of? outcome) (branchFailure? outcomes) := by
  rw [branchFailure?, branchFailure?]
  cases outcome with
  | ok v =>
    change _ = Failure.graver none _
    rw [Failure.graver]
    rfl
  | error failure =>
    have hcons : failuresOf (.error failure :: outcomes) = failure :: failuresOf outcomes := rfl
    rw [hcons, List.find?_cons]
    generalize failuresOf outcomes = rest
    change _ = Failure.graver (some failure) _
    cases hfatal : failure.error.isFatal with
    | true => cases (rest.find? (·.error.isFatal)).or rest.head? <;> simp [Failure.graver, hfatal]
    | false =>
      cases hfind : rest.find? (·.error.isFatal) with
      | some graver =>
        have hgraver : graver.error.isFatal := (List.find?_eq_some_iff_append.mp hfind).1
        simp [Failure.graver, hfatal, hgraver]
      | none =>
        cases rest with
        | nil => rfl
        | cons other _ =>
          have hother : other.error.isFatal = false := by simpa using List.find?_eq_none.mp hfind other
          simp [Failure.graver, hother]

end Engine

namespace Runtime

open Job

/-- Wherever a step is executed, it tells what the grammar derives for it. -/
def TellsTrace (runtime : Runtime) (s : Step) : Prop :=
  ∀ path depth, (runtime.runStep s path depth).Tells (Trace (.step s path depth))

section

variable (runtime : Runtime) (path : Path) (depth : Nat)

theorem tells_sequence {steps : List Step} (h : ∀ s ∈ steps, runtime.TellsTrace s) (i : Nat) (last : Value) :
    (sequence path depth i last (runtime.runSteps steps)).Tells (Trace (.rest steps path depth i)) := by
  induction steps generalizing i last with
  | nil => exact endsAs_pure (.nothingLeft path depth i)
  | cons s rest ih =>
    rw [runSteps, sequence]
    refine tells_bind (h s List.mem_cons_self (path.index i) depth) (fun v => ?_) (fun _ _ => .stopped)
      fun _ _ _ => .next
    exact ih (fun t ht => h t (List.mem_cons_of_mem _ ht)) (i + 1) v

theorem tells_runList {steps : List Step} (h : ∀ s ∈ steps, runtime.TellsTrace s) :
    (runtime.runList (runtime.runSteps steps) path depth).Tells (Trace (.list steps path depth)) := by
  rw [runList, Engine.checkDepth]
  split
  · rw [refuse_bind]
    exact endsAs_ofExec.mpr fun _ _ => .tooDeep rfl
  · refine tells_bind_right (endsAs_pure ⟨rfl, fun _ hfailure => ?_⟩) fun _ => ?_
    · cases hfailure
    · exact (tells_sequence runtime path depth h 0 .null).mono fun _ _ => .entered

theorem tells_iterate {body : List Step} (h : ∀ s ∈ body, runtime.TellsTrace s) (itemVar : String)
    (indexVar collect : Option String) (items : List (Value × Value)) :
    (iterate (runtime.runList (runtime.runSteps body) path depth) itemVar indexVar collect items).Tells
      (Trace (.rounds body path depth)) := by
  induction items with
  | nil => exact endsAs_pure (.noRound body path depth)
  | cons item rest ih =>
    rw [iterate]
    refine tells_scope_bind fun scope => ?_
    exact tells_bind ((tells_runList runtime path depth h).within _) (fun _ => tells_map ih _)
      (fun _ _ => .lastRound) fun _ _ _ => .nextRound

/-- A list that is not entered if it is empty tells as the list does, or nothing. -/
theorem tells_runUnlessEmpty {steps : List Step} {allowed : Ending} (h : ∀ s ∈ steps, runtime.TellsTrace s)
    (hempty : steps = [] → allowed [] none)
    (hlist : ∀ log ending, Trace (.list steps path depth) (eventsIn log) ending → allowed log ending) :
    (runtime.runUnlessEmpty (runtime.runSteps steps) path depth).EndsAs allowed := by
  cases steps with
  | nil => exact endsAs_pure (hempty rfl)
  | cons s rest => exact (tells_runList runtime path depth h).mono hlist

theorem tells_runTransform {operation : String} {input : Value} {params : Fields Value} {output : Option String} :
    (runtime.runTransform operation input params path depth).Tells
      (Trace (.kind (.transform operation input params output) path depth)) := by
  refine tells_scope_bind fun scope => ?_
  refine tells_lift_bind (input.resolve_ordinary scope) (fun _ => .own nofun nofun) fun data => ?_
  refine tells_lift_bind (Value.resolveFields_ordinary scope params) (fun _ => .own nofun nofun) fun resolved => ?_
  refine endsAs_ofOutcome ?_
  cases runtime.registry.run operation data resolved with
  | error error => exact .transform operation input params output path depth (some error)
  | ok v => exact .transform operation input params output path depth none

theorem tells_runConditional {condition : Condition} {whenTrue whenFalse : List Step} {output : Option String}
    (htrue : ∀ s ∈ whenTrue, runtime.TellsTrace s) (hfalse : ∀ s ∈ whenFalse, runtime.TellsTrace s) :
    (runtime.runConditional condition (runtime.runSteps whenTrue) (runtime.runSteps whenFalse) path depth).Tells
      (Trace (.kind (.conditional condition whenTrue whenFalse output) path depth)) := by
  refine tells_scope_bind fun scope => ?_
  refine tells_lift_bind (condition.evaluate_ordinary scope) (fun _ => .own nofun nofun) fun holds => ?_
  cases holds with
  | true => exact tells_runUnlessEmpty runtime _ _ htrue (fun hempty => .skipped (.inl hempty)) fun _ _ => .whenTrue
  | false => exact tells_runUnlessEmpty runtime _ _ hfalse (fun hempty => .skipped (.inr hempty)) fun _ _ => .whenFalse

theorem tells_runLoop {input : Value} {body : List Step} {itemVar : String} {indexVar collect output : Option String}
    (h : ∀ s ∈ body, runtime.TellsTrace s) :
    (runtime.runLoop input (runtime.runSteps body) itemVar indexVar collect path depth).Tells
      (Trace (.kind (.loop input body itemVar indexVar collect output) path depth)) := by
  refine tells_scope_bind fun scope => ?_
  refine tells_lift_bind ((input.resolve_ordinary scope).bind Engine.loopItems_ordinary) (fun _ => .own nofun nofun)
    fun items => ?_
  refine tells_map ?_ _
  exact (tells_iterate runtime _ _ h itemVar indexVar collect items).mono fun _ _ => .loop

/-- What branches tell is what each of them tells, interleaved. -/
theorem trace_branchesFrom {branches : List Step} (h : ∀ s ∈ branches, runtime.TellsTrace s) {scope : Scope} {i : Nat}
    {meter : Meter} {log : List Moment} {outcomes : List Engine.BranchOutcome}
    (hcomes : (branchesFrom path depth scope i (runtime.runSteps branches) meter).Comes log outcomes) :
    Trace (.branches branches path depth i) (eventsIn log) (Engine.branchFailure? outcomes) := by
  induction branches generalizing i meter log outcomes with
  | nil =>
    cases hcomes
    exact .noBranch path depth i
  | cons s rest ih =>
    obtain ⟨first, more, outcome, final, others, later, hfirst, hmore, hlog, rfl⟩ :=
      comes_branchesFrom_cons path depth hcomes
    have htold := h s List.mem_cons_self (path.index i) depth _ _ first _ hfirst
    have hown : Failure.of? (outcome.map fun v => (v, final)) = Failure.of? outcome := by cases outcome <;> rfl
    rw [Engine.branchFailure?_cons, hown]
    exact .branch htold (ih (fun t ht => h t (List.mem_cons_of_mem _ ht)) hmore) (hlog.filterMap _)

theorem tells_runParallel {branches : List Step} {output : Option String}
    (h : ∀ s ∈ branches, runtime.TellsTrace s) :
    (runtime.runParallel (branches.map Step.output) (runtime.runSteps branches) path depth).Tells
      (Trace (.kind (.parallel branches output) path depth)) :=
  endsAs_runParallel runtime path depth _ (fun _ => .tooDeepBranches rfl) fun _ _ _ _ hcomes =>
    .parallel (trace_branchesFrom runtime _ _ h hcomes)

theorem tells_runProtected {attempt : List Step} {recovery : Option (List Step)}
    (hattempt : ∀ s ∈ attempt, runtime.TellsTrace s)
    (hrecovery : ∀ steps, recovery = some steps → ∀ s ∈ steps, runtime.TellsTrace s) :
    (runtime.runProtected (runtime.runSteps attempt) (runtime.runOption recovery) path depth).Tells
      (Trace (.guarded attempt recovery path depth)) := by
  have htries := tells_runList runtime (path.key .trySteps) (depth + 1) hattempt
  refine endsAs_settle_bind htries.transactional fun outcome done htried => ?_
  have hraised (failure : Failure)
      (htried : Trace (.list attempt (path.key .trySteps) (depth + 1)) (eventsIn done) (some failure))
      (hlost : failure.error.isFatal ∨ recovery = none) :
      (ofExec (.raise failure) : Job Value).EndsAs fun more ending =>
        Trace (.guarded attempt recovery path depth) (eventsIn (done ++ more)) ending := by
    refine endsAs_ofOutcome ?_
    rw [List.append_nil]
    exact .unrecovered htried fun _ hfailure => Option.some.inj hfailure ▸ hlost
  cases outcome with
  | ok v =>
    refine endsAs_pure ?_
    rw [List.append_nil]
    exact .unrecovered htried nofun
  | error failure =>
    cases recovery with
    | none => exact hraised failure htried (.inr rfl)
    | some steps =>
      dsimp only [runOption, Option.map_some]
      split
      next hfatal => exact hraised failure htried (.inl hfatal)
      next hordinary =>
        have hordinary : failure.error.isFatal = false := Bool.eq_false_iff.mpr hordinary
        obtain ⟨-, hbelow, htold⟩ := htried.endsAt rfl
        have hemits : (ofExec (.emit (.errorRecovered path failure.path failure.error.message))).EndsAs
            fun log ending =>
              eventsIn log = [.errorRecovered path failure.path failure.error.message] ∧ ending = none :=
          endsAs_ofExec.mpr fun _ _ => ⟨rfl, rfl⟩
        have hcatches := tells_runList runtime (path.key .catchSteps) (depth + 1) (hrecovery steps rfl)
        refine endsAs_bind hemits (fun _ _ h => nomatch h.2) fun _ recovered hrecovered => ?_
        refine (hcatches.binding _ _).mono fun caught ending hcaught => ?_
        rw [eventsIn_append, eventsIn_append, hrecovered.1]
        exact .recovered htried hordinary (hbelow hordinary) (htold hordinary) hcaught

/-- What runs in any case is told of after what it runs after, unless a limit has ended that. -/
theorem tells_runTryCatch {attempt always : List Step} {recovery : Option (List Step)} {output : Option String}
    (hattempt : ∀ s ∈ attempt, runtime.TellsTrace s)
    (hrecovery : ∀ steps, recovery = some steps → ∀ s ∈ steps, runtime.TellsTrace s)
    (halways : ∀ s ∈ always, runtime.TellsTrace s) :
    (runtime.runTryCatch (runtime.runSteps attempt) (runtime.runOption recovery) (runtime.runSteps always) path
      depth).Tells (Trace (.kind (.tryCatch attempt recovery always output) path depth)) := by
  refine endsAs_settle_bind (tells_runProtected runtime path depth hattempt hrecovery) fun outcome done hguarded => ?_
  -- After an ordinary ending the last list runs, and its failure supersedes the one before.
  have hensured (hordinary : ∀ failure, Failure.of? outcome = some failure → failure.error.isFatal = false) :
      (runtime.runUnlessEmpty (runtime.runSteps always) (path.key .finallySteps) (depth + 1)).EndsAs
        fun more last => Trace (.kind (.tryCatch attempt recovery always output) path depth)
          (eventsIn (done ++ more)) (last.or (Failure.of? outcome)) := by
    refine tells_runUnlessEmpty runtime _ _ halways (fun hempty => ?_) fun more last hlast => ?_
    · rw [List.append_nil]
      exact .unensured hguarded (.inl hempty)
    · rw [eventsIn_append]
      exact .ensured hguarded hordinary hlast
  cases outcome with
  | ok v =>
    refine endsAs_bind (hensured nofun) (fun more failure h => ?_) fun _ more h => endsAs_pure ?_
    · exact h
    · rw [List.append_nil]
      exact h
  | error failure =>
    dsimp only
    split
    next hfatal =>
      refine endsAs_ofOutcome ?_
      rw [List.append_nil]
      exact .unensured hguarded (.inr ⟨failure, rfl, hfatal⟩)
    next hordinary =>
      have hordinary : failure.error.isFatal = false := Bool.eq_false_iff.mpr hordinary
      refine endsAs_bind (hensured fun _ h => Option.some.inj h ▸ hordinary) (fun more failure h => ?_)
        fun _ more h => endsAs_ofOutcome ?_
      · exact h
      · rw [List.append_nil]
        exact h

end

/-- A step is refused, or what its kind tells stands between its start and its end. -/
theorem tells_supervise (runtime : Runtime) (s : Step) {body : LocatedJob}
    (h : ∀ path depth, (body path depth).Tells (Trace (.kind s path depth))) (path : Path) (depth : Nat) :
    (runtime.supervise s body path depth).Tells (Trace (.step s path depth)) := by
  refine endsAs_supervise runtime path depth s (h path depth) (fun _ _ hrefuses => .refused hrefuses.isFatal) ?_
  intro done outcome begun scope meter hown
  have hinside : ∀ event ∈ eventsIn done, event.IsInside s path := hown.holds
  have hevents (ended : List Moment) :
      eventsIn (⟨.tell (.stepStarted path s.kind s.describe depth), begun⟩ :: (done ++ ended)) =
        .stepStarted path s.kind s.describe depth :: (eventsIn done ++ eventsIn ended) := by
    rw [← eventsIn_append]
    rfl
  rw [hevents, Engine.eventsIn_endStep]
  cases outcome with
  | ok v => exact .completed hown hinside
  | error failure =>
    -- A failure that names the step is its own; any other one names a place below, which has another text.
    by_cases hpath : failure.path = path
    · obtain ⟨_, error⟩ := failure
      obtain rfl := hpath
      simp only [if_true]
      exact .failed hown hinside
    · have hbelow := ((hown.endsAt rfl).resolve_left hpath).1
      simp only [hpath, if_false, List.append_nil]
      exact .ended hown hinside hbelow hbelow.text_ne

theorem tellsTrace (runtime : Runtime) (s : Step) : runtime.TellsTrace s := by
  induction s using Step.induction with
  | ability name input output =>
    refine tells_supervise runtime _ fun path depth => ?_
    have hsilent (done : List Moment) (h : ∀ moment ∈ done, ∃ made, moment.act = .call made) : eventsIn done = [] := by
      refine List.filterMap_eq_nil_iff.mpr fun moment hmoment => ?_
      obtain ⟨made, hmade⟩ := h moment hmoment
      rw [hmade]
      rfl
    refine endsAs_runAbility runtime path depth name input (fun error done hordinary hcalls => ?_) fun done hcalls => ?_
    · rw [hsilent done hcalls]
      exact .own nofun nofun hordinary
    · rw [hsilent done hcalls]
      exact .ability name input output path depth
  | transform operation input params output =>
    exact tells_supervise runtime _ fun path depth => tells_runTransform runtime path depth
  | conditional condition whenTrue whenFalse output htrue hfalse =>
    exact tells_supervise runtime _ fun path depth => tells_runConditional runtime path depth htrue hfalse
  | loop input body itemVar indexVar collect output hbody =>
    exact tells_supervise runtime _ fun path depth => tells_runLoop runtime path depth hbody
  | parallel branches output hbranches =>
    exact tells_supervise runtime _ fun path depth => tells_runParallel runtime path depth hbranches
  | tryCatch attempt recovery always output hattempt hrecovery halways =>
    exact tells_supervise runtime _ fun path depth =>
      tells_runTryCatch runtime path depth hattempt hrecovery halways
  | subPipeline pipeline inputs output hsteps =>
    obtain ⟨name, description, steps, result, limits⟩ := pipeline
    refine tells_supervise runtime _ fun path depth => tells_scope_bind fun scope => ?_
    refine tells_lift_bind (Value.resolveFields_ordinary scope inputs) (fun _ => .own nofun nofun) fun fields => ?_
    refine tells_map ?_ _
    exact ((tells_runList runtime _ _ hsteps).within _).mono fun _ _ => .subPipeline

/-- Only a step that is not admitted tells nothing. -/
theorem eventsIn_runStep_eq_nil (runtime : Runtime) {s : Step} {path : Path} {depth : Nat} {scope : Scope}
    {meter : Meter} {log : List Moment} {ended : Except Failure Value × Scope}
    (h : (runtime.runStep s path depth scope meter).Comes log ended) :
    eventsIn log = [] ↔ ∃ failure, (runtime.admission.startStep s path depth scope meter).outcome = .error failure := by
  obtain ⟨body, hbody⟩ := exists_supervise runtime s
  rw [hbody] at h
  rcases Engine.startStep_cases runtime.admission path depth s scope meter with ⟨error, -, heq⟩ | ⟨-, heq⟩
  · rw [supervise_of_refused runtime body heq rfl] at h
    cases h
    rw [heq]
    exact ⟨fun _ => ⟨⟨path, error⟩, rfl⟩, fun _ => rfl⟩
  · rw [supervise_of_begun runtime body heq rfl] at h
    obtain ⟨rest, rfl, -⟩ := h.of_after
    rw [heq]
    constructor
    · intro hnil
      cases hnil
    · rintro ⟨_, hfailed⟩
      cases hfailed

end Runtime

namespace Report

variable (pipeline : Pipeline) (clock : Clock) (ran : Ran Value)

/-- A run tells of its start and its end, and of its steps between them. -/
theorem ofRan_events :
    let report := ofRan pipeline clock ran
    report.events = .pipelineStarted (pipeline.name.getD Engine.anonymous) pipeline.totalSteps ::
      (eventsIn ran.log ++ [.pipelineCompleted report.succeeded report.stats.stepsExecuted]) := by
  intro report
  have hlog : report.log = _ := ofRan_log pipeline clock ran
  have hstats : report.stats = _ := ofRan_stats pipeline clock ran
  rw [events, hlog, hstats]
  change eventsIn _ = _
  rw [Engine.wholeLog, eventsIn_append]
  rfl

theorem ofRan_error :
    (ofRan pipeline clock ran).error =
      (Failure.of? ran.outcome).map fun failure => failure.escaped.info (some failure.path.text) := by
  rw [ofRan]
  cases ran.outcome <;> rfl

end Report

namespace Runtime

variable (runtime : Runtime) (pipeline : Pipeline) (context : Value) (clock : Clock)

theorem trace_runTop :
    Trace (.list pipeline.steps Path.top 0) (eventsIn (runtime.runTop pipeline context clock).log)
      (Failure.of? (runtime.runTop pipeline context clock).outcome) :=
  tells_runList runtime Path.top 0 (fun s _ => tellsTrace runtime s) _ _ _ _ (Progress.Comes.finish _)

/-- A run tells of its start, then a trace of its steps, then of its end, with the success and the number of steps
that it reports; a failure for an ordinary reason has been told by the step that it names. Within the run, whatever a
step starts with and whatever goes on while it waits, it tells nothing if it is not admitted, and else a trace of
itself, in which it goes on at most once after the failure of a step inside it. -/
theorem runPipeline_trace :
    let report := runtime.runPipeline pipeline context clock
    (∃ told ending,
      report.events = .pipelineStarted (pipeline.name.getD Engine.anonymous) pipeline.totalSteps ::
        (told ++ [.pipelineCompleted report.succeeded report.stats.stepsExecuted]) ∧
      Trace (.list pipeline.steps Path.top 0) told ending ∧
      (∀ event ∈ told, event.IsBelow Path.top) ∧
      report.error = ending.map fun failure => failure.escaped.info (some failure.path.text)) ∧
    (∀ failure, (runtime.runTop pipeline context clock).outcome = .error failure →
      failure.error.isFatal = false → .stepFailed failure.path failure.error.message ∈ report.events) ∧
    ∀ s path depth scope meter log ended, (runtime.runStep s path depth scope meter).Comes log ended →
      Trace (.step s path depth) (eventsIn log) (Failure.of? ended.1) ∧
      (eventsIn log = [] ↔
        ∃ failure, (runtime.admission.startStep s path depth scope meter).outcome = .error failure) ∧
      RecoversOnce path (eventsIn log) := by
  intro report
  have htrace := trace_runTop runtime pipeline context clock
  have hevents : report.events = _ := Report.ofRan_events pipeline clock (runtime.runTop pipeline context clock)
  have herror : report.error = _ := Report.ofRan_error pipeline clock (runtime.runTop pipeline context clock)
  refine ⟨⟨_, _, hevents, htrace, htrace.holds, herror⟩, fun failure hfailed hordinary => ?_, ?_⟩
  · rw [hfailed] at htrace
    have htold := (htrace.endsAt rfl).2.2 hordinary
    exact hevents ▸ List.mem_cons_of_mem _ (List.mem_append_left _ htold)
  · intro s path depth scope meter log ended hcomes
    have hstep := tellsTrace runtime s path depth scope meter log ended hcomes
    exact ⟨hstep, eventsIn_runStep_eq_nil runtime hcomes, hstep.recoversOnce⟩

/-- The first branch waits while the second one fails and recovers, and goes on after that. -/
theorem runPipeline_trace_interleaved :
    let slow : Service := fun _ input => .pending fun _ => .answer (.ok input)
    let runtime : Runtime := ⟨⟨fun _ => some slow⟩, .empty, .standard⟩
    let missing : Step := .transform "missing" .null [] none
    let branches : List Step := [.ability "slow" .null none, .tryCatch [missing] (some []) [] none, missing]
    let pipeline : Pipeline := ⟨none, none, [.parallel branches none], none, none⟩
    let report := runtime.runPipeline pipeline .null
    let step := Path.top.index 0
    let branch := fun i => (step.key .steps).index i
    let tried := ((branch 1).key .trySteps).index 0
    report.events.filterMap Event.place? =
      [step, branch 0, branch 1, tried, tried, branch 1, branch 1, branch 2, branch 2, branch 0] ∧
    ∃ error, .stepFailed (branch 2) error ∈ report.events := by
  intro slow runtime missing branches pipeline report step branch tried
  have hplaces : report.events.filterMap Event.place? =
      [step, branch 0, branch 1, tried, tried, branch 1, branch 1, branch 2, branch 2, branch 0] := by
    decide +kernel
  have hended : (Failure.of? (runtime.runTop pipeline .null .still).outcome).map
      (fun failure => (failure.path, failure.error.isFatal)) = some (branch 2, false) := by
    decide +kernel
  obtain ⟨failure, hfailure, hseen⟩ := Option.map_eq_some_iff.mp hended
  obtain ⟨hpath, hordinary⟩ := Prod.mk.inj hseen
  have htrace := runPipeline_trace runtime pipeline .null .still
  have htold := htrace.2.1 failure (Failure.of?_eq_some.mp hfailure) hordinary
  exact ⟨hplaces, failure.error.message, hpath ▸ htold⟩

end Runtime

namespace Engine

variable (engine : Engine)

theorem tellsTrace (s : Step) (path : Path) (depth : Nat) :
    (engine.runStep s path depth).Tells (Trace (.step s path depth)) :=
  (Runtime.tellsTrace engine.runtime s path depth).exec (runStep_realized engine s path depth)

variable (path : Path) (depth : Nat)

theorem tells_runList (steps : List Step) :
    (engine.runList (engine.runSteps steps) path depth).Tells (Trace (.list steps path depth)) :=
  (Runtime.tells_runList engine.runtime path depth fun s _ => Runtime.tellsTrace engine.runtime s).exec
    (runSteps_realized engine steps path depth)

theorem tells_iterate (body : List Step) (itemVar : String) (indexVar collect : Option String)
    (items : List (Value × Value)) :
    (iterate (engine.runList (engine.runSteps body) path depth) itemVar indexVar collect items).Tells
      (Trace (.rounds body path depth)) :=
  (Runtime.tells_iterate engine.runtime path depth (fun s _ => Runtime.tellsTrace engine.runtime s) _ _ _ _).exec
    (Mirrors.iterate (runSteps_realized engine body path depth) itemVar indexVar collect items)

theorem tells_runParallel (branches : List Step) (output : Option String) :
    (engine.runParallel (branches.map Step.output) (engine.runSteps branches) path depth).Tells
      (Trace (.kind (.parallel branches output) path depth)) :=
  (Runtime.tells_runParallel engine.runtime path depth fun s _ => Runtime.tellsTrace engine.runtime s).exec
    (engine.mirrors_runtime.runParallel path depth _ (fun s _ => runStep_realized engine s) id)

theorem tells_runTryCatch (attempt : List Step) (recovery : Option (List Step)) (always : List Step)
    (output : Option String) :
    (engine.runTryCatch (engine.runSteps attempt) (engine.runOption recovery) (engine.runSteps always) path
      depth).Tells (Trace (.kind (.tryCatch attempt recovery always output) path depth)) := by
  have htells (s : Step) := Runtime.tellsTrace engine.runtime s
  have hsame (s : Step) := runStep_realized engine s
  refine Job.Tells.exec ?_ (engine.mirrors_runtime.runTryCatch path depth (fun s _ => hsame s)
    (fun _ _ s _ => hsame s) fun s _ => hsame s)
  exact Runtime.tells_runTryCatch engine.runtime path depth (fun s _ => htells s) (fun _ _ s _ => htells s)
    fun s _ => htells s

variable (pipeline : Pipeline) (context : Value) (clock : Clock)

theorem trace_runTop :
    let ran := engine.runTop pipeline context clock
    Trace (.list pipeline.steps Path.top 0) (eventsIn ran.log) ran.failure? :=
  tells_runList engine Path.top 0 pipeline.steps _ _

theorem events_runPipeline :
    let report := engine.runPipeline pipeline context clock
    report.events = .pipelineStarted (pipeline.name.getD anonymous) pipeline.totalSteps ::
      (eventsIn (engine.runTop pipeline context clock).log ++
        [.pipelineCompleted report.succeeded report.stats.stepsExecuted]) :=
  Report.ofRan_events pipeline clock (engine.runTop pipeline context clock)

theorem runPipeline_error :
    (engine.runPipeline pipeline context clock).error =
      (engine.runTop pipeline context clock).failure?.map fun failure =>
        failure.escaped.info (some failure.path.text) := by
  rw [Ran.failure?_eq]
  exact Report.ofRan_error pipeline clock _

end Engine

end Pipewright
