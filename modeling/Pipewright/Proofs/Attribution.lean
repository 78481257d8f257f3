import Pipewright.Proofs.DeclaredSteps
import Pipewright.Proofs.Finally
import Pipewright.Proofs.PlannedSteps

/-!
# Failures and the steps they are put down to

A failure goes up through the steps around it as it is, so in the log of a run there is the execution that it comes
from: that of a step which stands in the pipeline where the failure says and fails itself, or the refusal of a list that
is nested too deep. The same goes for every failure that is told, also if something recovers from it.
-/
namespace Pipewright

namespace Engine

/-- In a log, a step that stands in a list is executed where a failure says, and fails with that failure. -/
def FailsAt (engine : Engine) (outer : PlacedList) (log : List Moment) (s : Step) (failure : Failure) : Prop :=
  ∃ depth scope meter, outer.HasStep s failure.path depth ∧
    (engine.runStep s failure.path depth scope meter).outcome = .error failure ∧
    (engine.runStep s failure.path depth scope meter).log <:+: log

/-- In a log, some step of a list fails with a failure that names it. -/
def FailsIn (engine : Engine) (outer : PlacedList) (log : List Moment) (failure : Failure) : Prop :=
  ∃ s, engine.FailsAt outer log s failure

/-- In a log, a list that stands in another one is refused because it stands too deep. -/
def RefusesListIn (engine : Engine) (outer : PlacedList) (log : List Moment) (failure : Failure) : Prop :=
  ∃ steps depth meter, outer.Within ⟨steps, failure.path, depth⟩ ∧ engine.limits.maxDepth < depth ∧
    failure.error = .depthLimit engine.limits.maxDepth ∧ ⟨.refuse failure, meter⟩ ∈ log

/-- Every failure that a log tells is that of a step which is executed in it. -/
def Explains (engine : Engine) (outer : PlacedList) (log : List Moment) : Prop :=
  ∀ path text, .stepFailed path text ∈ eventsIn log →
    ∃ error : RunError, error.message = text ∧ engine.FailsIn outer log ⟨path, error⟩

variable {engine : Engine} {outer : PlacedList} {log more : List Moment} {failure : Failure}

theorem FailsIn.mono (h : engine.FailsIn outer log failure) (hin : log <:+: more) :
    engine.FailsIn outer more failure := by
  obtain ⟨s, depth, scope, meter, hstep, hfails, hlog⟩ := h
  exact ⟨s, depth, scope, meter, hstep, hfails, hlog.trans hin⟩

theorem RefusesListIn.mono (h : engine.RefusesListIn outer log failure) (hin : log <:+: more) :
    engine.RefusesListIn outer more failure := by
  obtain ⟨steps, depth, meter, hlist, hdeep, herror, hrefused⟩ := h
  exact ⟨steps, depth, meter, hlist, hdeep, herror, hin.subset hrefused⟩

theorem explains_of_silent (h : ∀ path text, .stepFailed path text ∉ eventsIn log) : engine.Explains outer log :=
  fun path text htold => absurd htold (h path text)

theorem explains_of_eventsIn_eq_nil (h : eventsIn log = []) : engine.Explains outer log := by
  refine explains_of_silent fun path text htold => ?_
  rw [h] at htold
  cases htold

theorem Explains.append (h : engine.Explains outer log) (hmore : engine.Explains outer more) :
    engine.Explains outer (log ++ more) := by
  intro path text htold
  rw [eventsIn_append] at htold
  rcases List.mem_append.mp htold with htold | htold
  · obtain ⟨error, hmessage, hfails⟩ := h path text htold
    exact ⟨error, hmessage, hfails.mono (List.prefix_append _ _).isInfix⟩
  · obtain ⟨error, hmessage, hfails⟩ := hmore path text htold
    exact ⟨error, hmessage, hfails.mono (List.suffix_append _ _).isInfix⟩

end Engine

/-- The failures of an execution are put down to what its log shows, but for those that name a place of its own. -/
structure Ran.Attributed {α : Type} (engine : Engine) (outer : PlacedList) (own : Option Path) (ran : Ran α) :
    Prop where
  ended : ∀ failure, ran.outcome = .error failure →
    own = some failure.path ∨ engine.FailsIn outer ran.log failure ∨ engine.RefusesListIn outer ran.log failure
  told : engine.Explains outer ran.log

namespace Ran.Attributed

variable {α β : Type} {engine : Engine} {outer : PlacedList} {own : Option Path} {ran : Ran α}

theorem congr (h : ran.Attributed engine outer own) {other : Ran β} (hlog : other.log = ran.log)
    (houtcome : ∀ failure, other.outcome = .error failure → ran.outcome = .error failure) :
    other.Attributed engine outer own := by
  constructor
  · rw [hlog]
    exact fun failure hfailure => h.ended failure (houtcome failure hfailure)
  · rw [hlog]
    exact h.told

theorem weaken (h : ran.Attributed engine outer none) : ran.Attributed engine outer own :=
  ⟨fun failure hfailure => .inr ((h.ended failure hfailure).resolve_left nofun), h.told⟩

/-- What comes before an execution only adds to its log. -/
theorem prepend (h : ran.Attributed engine outer own) {log : List Moment} (htold : engine.Explains outer log) :
    Ran.Attributed engine outer own { ran with log := log ++ ran.log } := by
  have hin : ran.log <:+: log ++ ran.log := (List.suffix_append _ _).isInfix
  refine ⟨fun failure hfailure => ?_, htold.append h.told⟩
  exact (h.ended failure hfailure).imp_right (Or.imp (·.mono hin) (·.mono hin))

end Ran.Attributed

namespace Exec

variable {α β : Type} (engine : Engine) (outer : PlacedList) {own : Option Path}

/-- Wherever the execution starts, its failures are put down to what its log shows, but for those that name a place of
its own. -/
def Attributed (own : Option Path) (x : Exec α) : Prop :=
  ∀ scope meter, (x scope meter).Attributed engine outer own

theorem attributed_ofOutcome {outcome : Except Failure α}
    (h : ∀ failure, outcome = .error failure → own = some failure.path) :
    (ofOutcome outcome).Attributed engine outer own :=
  fun _ _ => ⟨fun failure hfailure => .inl (h failure hfailure), Engine.explains_of_eventsIn_eq_nil rfl⟩

theorem attributed_bind {x : Exec α} {next : α → Exec β} (hx : x.Attributed engine outer own)
    (hnext : ∀ a, (next a).Attributed engine outer own) : (x >>= next).Attributed engine outer own := by
  intro scope meter
  have hfirst := hx scope meter
  cases h : (x scope meter).outcome with
  | error failure =>
    rw [bind_of_error h]
    exact hfirst.congr rfl fun other hother => Except.error.inj hother ▸ h
  | ok a =>
    rw [bind_of_ok h]
    exact (hnext a _ _).prepend hfirst.told

theorem attributed_binds (own : Option Path) : Binds fun {_} x _ => x.Attributed engine outer own where
  pure _ := attributed_ofOutcome engine outer nofun
  bind := attributed_bind engine outer

/-- What goes wrong in an execution at a place is its own. -/
theorem attributed_carriesAt (path : Path) :
    CarriesAt path path fun {_} x _ => x.Attributed engine outer (some path) where
  pure _ := attributed_ofOutcome engine outer nofun
  raise _ _ := attributed_ofOutcome engine outer fun _ h => Except.error.inj h ▸ rfl
  scope := fun scope => (attributed_binds engine outer _).pure scope scope
  bind := attributed_bind engine outer

variable {engine outer}

theorem error_of_within {x : Exec α} {inner scope : Scope} {meter : Meter} {failure : Failure}
    (h : (within inner x scope meter).outcome = .error failure) : (x inner meter).outcome = .error failure := by
  rw [within] at h
  cases houtcome : (x inner meter).outcome with
  | ok a => simp [houtcome, Except.map] at h
  | error other => simpa [houtcome, Except.map] using h

theorem attributed_within {x : Exec α} (h : x.Attributed engine outer own) (inner : Scope) :
    (within inner x).Attributed engine outer own :=
  fun _ meter => (h inner meter).congr rfl fun _ hfailure => error_of_within hfailure

end Exec

namespace Engine

open Exec

variable {engine : Engine} {outer : PlacedList}

/-- Wherever a step that stands in a list is executed, its failures are put down to what its log shows. -/
def AttributesStep (engine : Engine) (outer : PlacedList) (s : Step) : Prop :=
  ∀ path depth, outer.HasStep s path depth → (engine.runStep s path depth).Attributed engine outer none

section

variable {path : Path} {depth : Nat} {list : PlacedList}

theorem attributed_sequence {steps : List Step} {i : Nat}
    (h : ∀ j s, steps[j]? = some s → (engine.runStep s (path.index (i + j)) depth).Attributed engine outer none)
    (last : Value) : (sequence path depth i last (engine.runSteps steps)).Attributed engine outer none := by
  induction steps generalizing i last with
  | nil => exact (attributed_binds engine outer _).pure last
  | cons s rest ih =>
    refine attributed_bind engine outer (h 0 s rfl) fun v => ih (fun j t ht => ?_) v
    rw [Nat.add_right_comm]
    exact h (j + 1) t ht

/-- A list that stands in another one is refused, or its steps are executed where they stand. -/
theorem attributed_runList (hlist : outer.Within list) (h : ∀ s ∈ list.steps, engine.AttributesStep outer s) :
    (engine.runList (engine.runSteps list.steps) list.path list.depth).Attributed engine outer none := by
  by_cases hdeep : engine.limits.maxDepth < list.depth
  · rw [runList_of_deep hdeep]
    refine fun scope meter => ⟨fun failure hfailure => .inr (.inr ?_), explains_of_eventsIn_eq_nil rfl⟩
    obtain rfl := Except.error.inj hfailure
    exact ⟨list.steps, list.depth, meter, hlist, hdeep, rfl, List.mem_cons_self⟩
  · rw [runList, checkDepth, if_neg hdeep]
    refine attributed_sequence (fun j s hs => ?_) .null
    rw [Nat.zero_add]
    exact h s (List.mem_of_getElem? hs) _ _ (hlist.hasStep hs)

theorem attributed_runUnlessEmpty (hlist : outer.Within list) (h : ∀ s ∈ list.steps, engine.AttributesStep outer s) :
    (engine.runUnlessEmpty (engine.runSteps list.steps) list.path list.depth).Attributed engine outer none := by
  rw [runUnlessEmpty]
  split
  · exact (attributed_binds engine outer _).pure _
  · exact attributed_runList hlist h

theorem attributed_attempts {steps : List Step} {i : Nat}
    (h : ∀ j s, steps[j]? = some s → (engine.runStep s (path.index (i + j)) depth).Attributed engine outer none)
    (scope : Scope) (meter : Meter) :
    ∀ ran ∈ engine.attempts path depth scope i meter steps, ran.Attributed engine outer none := by
  induction steps generalizing i meter with
  | nil => exact nofun
  | cons s rest ih =>
    refine List.forall_mem_cons.mpr ⟨h 0 s rfl scope meter, ih (fun j t ht => ?_) _⟩
    rw [Nat.add_right_comm]
    exact h (j + 1) t ht

/-- A parallel step fails with the failure of one of its branches. -/
theorem exists_of_firstFailure {rans : List (Ran Value)} {failure : Failure} (h : firstFailure? rans = some failure) :
    ∃ ran ∈ rans, ran.outcome = .error failure := by
  have hmem : failure ∈ rans.filterMap Ran.failure? := by
    rcases Option.or_eq_some_iff.mp h with hfatal | ⟨-, hfirst⟩
    · exact List.mem_of_find?_eq_some hfatal
    · exact List.mem_of_head? hfirst
  obtain ⟨ran, hran, hfailure⟩ := List.mem_filterMap.mp hmem
  exact ⟨ran, hran, Ran.failure?_eq_some.mp hfailure⟩

/-- What is known of some executions is known of all of them together. -/
theorem explains_flatten {rans : List (Ran Value)} (h : ∀ ran ∈ rans, ran.Attributed engine outer none) :
    engine.Explains outer (rans.map Ran.log).flatten := by
  induction rans with
  | nil => exact explains_of_eventsIn_eq_nil rfl
  | cons ran rest ih =>
    obtain ⟨hran, hrest⟩ := List.forall_mem_cons.mp h
    rw [List.map_cons, List.flatten_cons]
    exact hran.told.append (ih hrest)

theorem attributed_runParallel {branches : List Step}
    (hlist : outer.Within ⟨branches, path.key .steps, depth + 1⟩) (h : ∀ s ∈ branches, engine.AttributesStep outer s) :
    (engine.runParallel (branches.map Step.output) (engine.runSteps branches) path depth).Attributed engine outer
      none := by
  intro scope meter
  by_cases hdeep : engine.limits.maxDepth < depth + 1
  · -- Branches are refused as any other list is.
    have hrefused := attributed_runList hlist h scope meter
    rwa [runList_of_deep hdeep, ← runParallel_of_deep hdeep (branches.map Step.output) (engine.runSteps branches)]
      at hrefused
  · have hparallel := runParallel_eq engine branches path scope meter (Nat.le_of_not_lt hdeep)
    let rans := engine.attempts (path.key .steps) (depth + 1) scope 0 meter branches
    let joined := joinBranches (branches.map Step.output) (rans.map handedOver) scope (meterAfter meter rans)
    have hrans : ∀ ran ∈ rans, ran.Attributed engine outer none := by
      refine attributed_attempts (fun j s hs => ?_) scope meter
      rw [Nat.zero_add]
      exact h s (List.mem_of_getElem? hs) _ _ (hlist.hasStep hs)
    have hlog : (rans.map Ran.log).flatten ++ joined.log = (rans.map Ran.log).flatten := by
      rw [(joinBranches_writes _ _ _ _).2.2, List.append_nil]
    rw [hparallel]
    change Ran.Attributed engine outer none { joined with log := (rans.map Ran.log).flatten ++ joined.log }
    rw [hlog]
    refine ⟨fun failure hfailure => ?_, explains_flatten hrans⟩
    obtain ⟨ran, hran, hfails⟩ := exists_of_firstFailure (((joinBranches_outcome rans _ scope _).2 failure).mp hfailure)
    have hin : ran.log <:+: (rans.map Ran.log).flatten := List.infix_of_mem_flatten (List.mem_map_of_mem hran)
    exact ((hrans ran hran).ended failure hfails).imp_right (Or.imp (·.mono hin) (·.mono hin))

theorem attributed_runProtected {attempt : List Step} {recovery : Option (List Step)}
    (htry : outer.Within ⟨attempt, path.key .trySteps, depth + 1⟩)
    (hcatch : ∀ steps, recovery = some steps → outer.Within ⟨steps, path.key .catchSteps, depth + 1⟩)
    (hattempt : ∀ s ∈ attempt, engine.AttributesStep outer s)
    (hrecovery : ∀ steps, recovery = some steps → ∀ s ∈ steps, engine.AttributesStep outer s) :
    (engine.runProtected (engine.runSteps attempt) (engine.runOption recovery) path depth).Attributed engine outer
      none := by
  intro scope meter
  have htried := attributed_runList htry hattempt scope meter
  rcases runProtected_cases engine attempt recovery path depth scope meter with
    ⟨-, hguarded⟩ | ⟨failure, herror, -, hguarded⟩ | ⟨failure, steps, -, -, hsome, hguarded⟩
  · rw [hguarded]
    exact htried
  · rw [hguarded]
    exact htried.congr rfl fun other hother => Except.error.inj hother ▸ herror
  · rw [hguarded]
    have hcaught := attributed_runList (hcatch steps hsome) (hrecovery steps hsome)
      (scope.set errorVariable (failure.error.info failure.path.text).toValue)
    have hrecovered (meter : Meter) :
        engine.Explains outer [⟨.tell (.errorRecovered path failure.path failure.error.message), meter⟩] :=
      explains_of_silent fun _ _ htold => nomatch List.mem_singleton.mp htold
    exact (((hcaught _).prepend (hrecovered _)).prepend htried.told).congr rfl fun _ hother => hother

theorem attributed_runTryCatch {attempt always : List Step} {recovery : Option (List Step)}
    (htry : outer.Within ⟨attempt, path.key .trySteps, depth + 1⟩)
    (hcatch : ∀ steps, recovery = some steps → outer.Within ⟨steps, path.key .catchSteps, depth + 1⟩)
    (hfinally : outer.Within ⟨always, path.key .finallySteps, depth + 1⟩)
    (hattempt : ∀ s ∈ attempt, engine.AttributesStep outer s)
    (hrecovery : ∀ steps, recovery = some steps → ∀ s ∈ steps, engine.AttributesStep outer s)
    (halways : ∀ s ∈ always, engine.AttributesStep outer s) :
    (engine.runTryCatch (engine.runSteps attempt) (engine.runOption recovery) (engine.runSteps always) path
      depth).Attributed engine outer none := by
  intro scope meter
  let guarded := engine.runProtected (engine.runSteps attempt) (engine.runOption recovery) path depth scope meter
  have hguarded : guarded.Attributed engine outer none :=
    attributed_runProtected htry hcatch hattempt hrecovery scope meter
  rw [runTryCatch]
  by_cases hfatal : ∃ failure, guarded.outcome = .error failure ∧ failure.error.isFatal
  · obtain ⟨failure, herror, hfatal⟩ := hfatal
    rw [ensuring_of_fatal herror hfatal]
    exact hguarded
  · have hordinary (failure : Failure) (herror : guarded.outcome = .error failure) :
        failure.error.isFatal = false :=
      Bool.eq_false_iff.mpr fun h => hfatal ⟨failure, herror, h⟩
    rw [ensuring_of_ordinary hordinary]
    let ended := engine.runUnlessEmpty (engine.runSteps always) (path.key .finallySteps) (depth + 1) guarded.scope
      guarded.meter
    have hended : ended.Attributed engine outer none := attributed_runUnlessEmpty hfinally halways _ _
    have hfirst : guarded.log <:+: guarded.log ++ ended.log := (List.prefix_append _ _).isInfix
    have hlast : ended.log <:+: guarded.log ++ ended.log := (List.suffix_append _ _).isInfix
    refine ⟨fun failure hfailure => ?_, hguarded.told.append hended.told⟩
    cases hlate : ended.outcome with
    | error other =>
      change ended.outcome.bind _ = _ at hfailure
      rw [hlate] at hfailure
      obtain rfl := Except.error.inj hfailure
      exact (hended.ended other hlate).imp_right (Or.imp (·.mono hlast) (·.mono hlast))
    | ok v =>
      change ended.outcome.bind _ = _ at hfailure
      rw [hlate] at hfailure
      exact (hguarded.ended failure hfailure).imp_right (Or.imp (·.mono hfirst) (·.mono hfirst))

end

/-- A step is put down its own failures to, and what its kind does the others. -/
theorem attributesStep_supervise {s : Step} {body : Located} (hrun : engine.runStep s = engine.supervise s body)
    (h : ∀ path depth, outer.HasStep s path depth → (body path depth).Attributed engine outer (some path)) :
    engine.AttributesStep outer s := by
  intro path depth hstep scope meter
  let whole := engine.runStep s path depth scope meter
  have hself {error : RunError} (hfails : whole.outcome = .error ⟨path, error⟩) :
      engine.FailsIn outer whole.log ⟨path, error⟩ :=
    ⟨s, depth, scope, meter, hstep, hfails, List.infix_rfl⟩
  rcases startStep_cases engine path depth s scope meter with ⟨error, -, heq⟩ | ⟨-, heq⟩
  · have hwhole : whole = ⟨.error ⟨path, error⟩, scope, meter.tick, [⟨.refuse ⟨path, error⟩, meter.tick⟩]⟩ := by
      change engine.runStep s path depth scope meter = _
      rw [hrun, supervise, bind_of_error (by rw [heq]), heq]
    refine ⟨fun failure hfailure => .inr (.inl ?_), ?_⟩
    · have hpath : failure = ⟨path, error⟩ := by
        change whole.outcome = _ at hfailure
        rw [hwhole] at hfailure
        exact (Except.error.inj hfailure).symm
      subst hpath
      exact hself hfailure
    · change engine.Explains outer whole.log
      rw [hwhole]
      exact explains_of_eventsIn_eq_nil rfl
  · let own := body path depth scope (meter.tick.record s.kind)
    let ended := endStep s path own.outcome own.scope own.meter
    have hown : own.Attributed engine outer (some path) := h path depth hstep scope _
    have hwhole : whole = { ended with
        log := ⟨.tell (.stepStarted path s.kind s.describe depth), meter.tick.record s.kind⟩ ::
          (own.log ++ ended.log) } := by
      have hsupervised := supervise_of_begun engine s body path depth scope meter (by rw [heq])
      rw [heq, ← hrun] at hsupervised
      exact hsupervised
    have houtcome : whole.outcome = own.outcome := by
      rw [hwhole]
      exact endStep_outcome s path own.outcome own.scope own.meter
    have hin : own.log <:+: whole.log := by
      rw [hwhole]
      exact (List.prefix_append _ _).isInfix.trans (List.suffix_cons _ _).isInfix
    refine ⟨fun failure hfailure => .inr ?_, fun place text htold => ?_⟩
    · rcases hown.ended failure (houtcome ▸ hfailure) with hpath | hbelow
      · obtain ⟨_, error⟩ := failure
        obtain rfl := Option.some.inj hpath
        exact .inl (hself hfailure)
      · exact hbelow.imp (·.mono hin) (·.mono hin)
    · have hevents : eventsIn whole.log =
          .stepStarted path s.kind s.describe depth :: (eventsIn own.log ++ eventsIn ended.log) := by
        rw [hwhole, ← eventsIn_append]
        rfl
      change _ ∈ eventsIn whole.log at htold
      rw [hevents] at htold
      rcases List.mem_cons.mp htold with hstarted | htold
      · cases hstarted
      rcases List.mem_append.mp htold with htold | htold
      · obtain ⟨error, hmessage, hfails⟩ := hown.told place text htold
        exact ⟨error, hmessage, hfails.mono hin⟩
      · -- The step tells of a failure at its end only if the failure names it.
        rw [eventsIn_endStep] at htold
        cases hended : own.outcome with
        | ok =>
          rw [hended] at htold
          cases List.mem_singleton.mp htold
        | error failure =>
          rw [hended] at htold
          dsimp only at htold
          split at htold
          next hpath =>
            cases List.mem_singleton.mp htold
            obtain ⟨_, error⟩ := failure
            obtain rfl := hpath
            exact ⟨error, rfl, hself (houtcome.trans hended)⟩
          · cases htold

theorem attributed_call (name : String) (input : Value) (path : Path) :
    (engine.call path name input).Attributed engine outer (some path) := by
  intro scope meter
  cases hability : engine.abilities.ability? name with
  | none =>
    rw [call, hability]
    exact ⟨fun failure hfailure => .inl (Except.error.inj hfailure ▸ rfl), explains_of_eventsIn_eq_nil rfl⟩
  | some ability =>
    rw [call_of_some engine path hability]
    refine ⟨fun failure hfailure => .inl ?_, explains_of_eventsIn_eq_nil rfl⟩
    cases hanswer : ability meter.calls input with
    | error cause =>
      simp only [hanswer] at hfailure
      exact Except.error.inj hfailure ▸ rfl
    | ok v =>
      simp only [hanswer] at hfailure
      cases hfailure

/-- What a list comes to inside a step, whatever the failures are that the step has of its own. -/
theorem attributed_list {s : Step} {path below : Path} {depth : Nat} {steps : List Step}
    (hstep : outer.HasStep s path depth) (hlist : (below, steps) ∈ s.children)
    (h : ∀ t ∈ steps, engine.AttributesStep outer t) (own : Option Path) :
    (engine.runList (engine.runSteps steps) (path ++ below) (depth + 1)).Attributed engine outer own :=
  fun scope meter => (attributed_runList (hstep.within hlist) h scope meter).weaken

/-- Wherever a step stands and is executed, its failures are put down to what its log shows. -/
theorem attributesStep (engine : Engine) (outer : PlacedList) (s : Step) : engine.AttributesStep outer s := by
  induction s using Step.induction with
  | ability name input output =>
    refine attributesStep_supervise rfl fun path depth _ => ?_
    exact carries_runAbility (attributed_carriesAt engine outer path) engine engine depth depth name input
      fun input => attributed_call name input path
  | transform operation input params output =>
    refine attributesStep_supervise rfl fun path depth _ => ?_
    exact carries_runTransform (attributed_carriesAt engine outer path) engine engine depth depth rfl operation input
      params
  | conditional condition whenTrue whenFalse output htrue hfalse =>
    refine attributesStep_supervise rfl fun path depth hstep => ?_
    have hthen := attributed_list hstep List.mem_cons_self htrue (some path)
    have helse := attributed_list hstep (List.mem_cons_of_mem _ List.mem_cons_self) hfalse (some path)
    rw [runSteps_eq_map] at hthen helse ⊢
    rw [runSteps_eq_map]
    exact carries_runConditional (attributed_carriesAt engine outer path) engine engine depth depth
      (g := engine.runStep) condition hthen helse
  | loop input body itemVar indexVar collect output hbody =>
    refine attributesStep_supervise rfl fun path depth hstep => ?_
    have hround := attributed_list hstep List.mem_cons_self hbody (some path)
    let steps := engine.runSteps body
    exact carries_runLoop (attributed_carriesAt engine outer path) engine engine depth depth input steps steps itemVar
      indexVar collect (attributed_within hround)
  | parallel branches output hbranches =>
    refine attributesStep_supervise rfl fun path depth hstep scope meter => ?_
    exact (attributed_runParallel (hstep.within List.mem_cons_self) hbranches scope meter).weaken
  | tryCatch attempt recovery always output hattempt hrecovery halways =>
    refine attributesStep_supervise rfl fun path depth hstep scope meter => Ran.Attributed.weaken ?_
    have htry : outer.Within ⟨attempt, path ++ [.key .trySteps], depth + 1⟩ := hstep.within List.mem_cons_self
    have hcatch (steps : List Step) (hsome : recovery = some steps) :
        outer.Within ⟨steps, path ++ [.key .catchSteps], depth + 1⟩ := by
      subst hsome
      exact hstep.within (List.mem_cons_of_mem _ List.mem_cons_self)
    have hfinally : outer.Within ⟨always, path ++ [.key .finallySteps], depth + 1⟩ :=
      hstep.within (List.mem_append_right _ List.mem_cons_self)
    exact attributed_runTryCatch htry hcatch hfinally hattempt hrecovery halways scope meter
  | subPipeline pipeline inputs output hsteps =>
    obtain ⟨name, description, steps, result, limits⟩ := pipeline
    refine attributesStep_supervise rfl fun path depth hstep => ?_
    have hnested := attributed_list hstep List.mem_cons_self hsteps (some path)
    rw [← Path.key_key] at hnested
    let nested := engine.runSteps steps
    exact carries_runNested (attributed_carriesAt engine outer path) engine engine depth depth nested nested result
      inputs (attributed_within hnested)

/-- The failures of a run are put down to the steps and lists of its pipeline. -/
theorem attributed_runTop (engine : Engine) (pipeline : Pipeline) (context : Value) (clock : Clock) :
    (engine.runTop pipeline context clock).Attributed engine pipeline.top none := by
  have hself : pipeline.top.Within pipeline.top := .self
  exact attributed_runList hself (fun s _ => attributesStep engine pipeline.top s) _ _

end Engine

end Pipewright
