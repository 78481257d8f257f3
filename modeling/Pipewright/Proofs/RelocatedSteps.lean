import Pipewright.Proofs.Relocation

/-!
# Steps at another place

Every kind of step comes to the same inside of something larger as alone, as long as the abilities answer the same and
no list recovers from a failure: such a list is told where the failure arose, and that is somewhere else.
-/
namespace Pipewright

theorem mapError_error {ε ε' α : Type} (f : ε → ε') (error : ε) :
    (Except.error error : Except ε α).mapError f = .error (f error) :=
  rfl

namespace Engine

open Exec

/-- Wherever a step is executed, it comes to the same inside of something larger as alone. -/
def Movable (engine : Engine) (r : Relocation) (s : Step) : Prop :=
  ∀ path depth, Relocates r path.length
    ((engine.under r.limits).runStep s (r.place ++ path) (depth + r.levels))
    ((engine.under r.alone).runStep s path depth)

section

variable (engine : Engine) (r : Relocation) (path : Path) (depth : Nat)

/-- A step starts or is refused at both places, unless only the larger whole refuses it. -/
theorem relocates_startStep (s : Step) : Relocates r path.length
    ((engine.under r.limits).startStep s (r.place ++ path) (depth + r.levels))
    ((engine.under r.alone).startStep s path depth) := by
  intro scope meter meter' hmeter
  cases htime : r.limits.timeIsUp (meter.clock 0) with
  | true =>
    rw [startStep_of_late (engine.under r.limits) _ _ s scope htime]
    by_cases hlenient : r.lenient
    · exact .inl ⟨hlenient, List.cons_ne_nil _ _⟩
    · rw [startStep_of_late (engine.under r.alone) _ _ s scope (r.late hmeter hlenient htime)]
      refine .inr ⟨rfl, rfl, r.tick hmeter (absurd · hlenient), rfl, fun failure herror _ => ?_⟩
      cases herror
      exact Nat.le_refl _
  | false =>
    have hinTime : (engine.under r.alone).limits.timeIsUp (meter'.clock 0) = false := r.inTime hmeter htime
    have htick := r.tick hmeter fun _ => htime
    by_cases hspent : r.limits.maxSteps ≤ meter.stats.stepsExecuted
    · rw [startStep_of_spent (engine.under r.limits) _ _ s scope htime hspent]
      by_cases hlenient : r.lenient
      · exact .inl ⟨hlenient, List.cons_ne_nil _ _⟩
      · rw [startStep_of_spent (engine.under r.alone) _ _ s scope hinTime (r.spent hmeter hlenient hspent)]
        refine .inr ⟨rfl, rfl, htick, rfl, fun failure herror _ => ?_⟩
        cases herror
        exact Nat.le_refl _
    · have hleft := Nat.lt_of_not_le hspent
      rw [startStep_of_budget (engine.under r.limits) _ _ s scope htime hleft,
        startStep_of_budget (engine.under r.alone) _ _ s scope hinTime (r.budget hmeter hleft)]
      exact .inr ⟨rfl, rfl, r.record s.kind htick, rfl, nofun⟩

/-- The end of a step tells the same at both places: a limit is never met in the step itself once it has started, so
the failure that it tells quotes no number. -/
theorem relocates_endStep (s : Step) (outcome : Except Failure Value)
    (hdeep : ∀ failure, outcome = .error failure → failure.error.isFatal → path.length + 1 ≤ failure.path.length) :
    Relocates r path.length (endStep s (r.place ++ path) (outcome.mapError (Failure.moved r.place r.limits)))
      (endStep s path outcome) := by
  have law := relocates_carriesAt r path.length path
  cases outcome with
  | ok v =>
    refine law.bind ?_ fun _ => law.bind ?_ fun _ => law.bind ?_ fun _ => law.pure v
    · cases s.output with
      | none => exact law.pure ()
      | some name => exact relocates_write _
    · exact relocates_of_moved fun scope _ _ hmeter => ⟨rfl, rfl, r.observe scope.size hmeter, rfl, nofun⟩
    · exact relocates_emit (.stepCompleted path s.kind)
  | error failure =>
    have hraise : Relocates r path.length (raise (failure.moved r.place r.limits) : Exec Value) (raise failure) :=
      relocates_raise fun hfatal => Nat.le_of_succ_le (hdeep failure rfl hfatal)
    by_cases hown : failure.path = path
    · have hordinary : failure.error.isFatal = false := by
        refine Bool.eq_false_iff.mpr fun hfatal => ?_
        have hlonger := hdeep failure rfl hfatal
        rw [hown] at hlonger
        omega
      have hmoved : (failure.moved r.place r.limits).path = r.place ++ path := congrArg (r.place ++ ·) hown
      have hmessage : (failure.moved r.place r.limits).error = failure.error :=
        RunError.quoting_of_ordinary r.limits hordinary
      rw [mapError_error, endStep, endStep, if_pos hown, if_pos hmoved, hmessage]
      exact law.bind (relocates_emit (.stepFailed path failure.error.message)) fun _ => hraise
    · have hmoved : (failure.moved r.place r.limits).path ≠ r.place ++ path :=
        fun heq => hown (List.append_cancel_left heq)
      rw [mapError_error, endStep, endStep, if_neg hown, if_neg hmoved]
      exact hraise

theorem relocates_supervise (s : Step) {body body' : Located}
    (h : Relocates r (path.length + 1) (body (r.place ++ path) (depth + r.levels)) (body' path depth)) :
    Relocates r path.length ((engine.under r.limits).supervise s body (r.place ++ path) (depth + r.levels))
      ((engine.under r.alone).supervise s body' path depth) :=
  relocates_bind (relocates_startStep engine r path depth s) fun _ =>
    relocates_settle_bind h fun outcome hdeep => relocates_endStep r path s outcome hdeep

theorem relocates_call {level : Nat} (hsteady : engine.abilities.Steady) (name : String) (input : Value) :
    Relocates r level ((engine.under r.limits).call (r.place ++ path) name input)
      ((engine.under r.alone).call path name input) := by
  cases hability : engine.abilities.ability? name with
  | none =>
    rw [call, call, under, under, hability]
    exact relocates_raise_own path rfl
  | some ability =>
    refine relocates_of_moved fun scope meter meter' hmeter => ?_
    rw [call_of_some (engine.under r.limits) _ hability, call_of_some (engine.under r.alone) _ hability,
      hsteady name ability hability meter.calls meter'.calls]
    refine ⟨?_, rfl, r.remember _ hmeter, rfl, fun failure herror hfatal => ?_⟩
    · cases ability meter'.calls input <;> rfl
    · cases hanswer : ability meter'.calls input with
      | ok v =>
        rw [hanswer] at herror
        cases herror
      | error cause =>
        rw [hanswer] at herror
        cases herror
        cases hfatal

/-- What is nested too deep at one place is so at the other. -/
theorem relocates_refuse_depth {α : Type} :
    Relocates r path.length (refuse ⟨r.place ++ path, .depthLimit r.limits.maxDepth⟩ : Exec α)
      (refuse ⟨path, .depthLimit r.alone.maxDepth⟩) :=
  relocates_refuse ⟨path, .depthLimit r.alone.maxDepth⟩ (Nat.le_refl _)

/-- A list comes to the same at both places if its steps do. -/
theorem relocates_runSteps {steps : List Step}
    (h : ∀ s ∈ steps, engine.Movable r s) :
    Relocates r path.length
      ((engine.under r.limits).runList ((engine.under r.limits).runSteps steps) (r.place ++ path) (depth + r.levels))
      ((engine.under r.alone).runList ((engine.under r.alone).runSteps steps) path depth) := by
  have hdepth := r.depth
  rw [runSteps_eq_map, runSteps_eq_map]
  have law := (relocates_carriesAt r path.length path).binds
  refine binds_runList law _ _ _ path _ depth (fun hshallow => ?_) (fun hdeep => ?_) fun _ s hs i => ?_
  · change depth + r.levels ≤ r.limits.maxDepth at hshallow
    change depth ≤ r.alone.maxDepth
    omega
  · have hdeep' : (engine.under r.alone).limits.maxDepth < depth := by
      change r.limits.maxDepth < depth + r.levels at hdeep
      change r.alone.maxDepth < depth
      omega
    rw [runList_of_deep hdeep, runList_of_deep hdeep']
    exact relocates_refuse_depth r path
  · rw [Path.append_index]
    exact (h s hs (path.index i) depth).mono (by simp [Path.index])

end

/-! ### Branches -/

section

variable (engine : Engine) (r : Relocation)

theorem handedOver_moved {ran alone : Ran Value} {level : Nat} (h : ran.Moved r level alone) :
    handedOver ran = (handedOver alone).mapError (Failure.moved r.place r.limits) := by
  rw [handedOver, handedOver, h.outcome, h.scope]
  cases alone.outcome <;> rfl

/-- Branches come to the same at both places, each in its turn, unless one is refused in the larger whole only. -/
theorem relocates_attempts (list : Path) (depth : Nat) (scope : Scope) {branches : List Step}
    (h : ∀ s ∈ branches, ∀ i, Relocates r (list.index i).length
      ((engine.under r.limits).runStep s (r.place ++ list.index i) (depth + r.levels))
      ((engine.under r.alone).runStep s (list.index i) depth))
    (i : Nat) {meter meter' : Meter} (hmeter : r.meters meter meter') :
    let rans := (engine.under r.limits).attempts (r.place ++ list) (depth + r.levels) scope i meter branches
    let alone := (engine.under r.alone).attempts list depth scope i meter' branches
    (r.lenient ∧ refusals (rans.map Ran.log).flatten ≠ []) ∨
    (rans.map handedOver = (alone.map handedOver).map (Except.mapError (Failure.moved r.place r.limits)) ∧
      r.meters (meterAfter meter rans) (meterAfter meter' alone) ∧
      actsIn (rans.map Ran.log).flatten =
        (actsIn (alone.map Ran.log).flatten).map (Act.moved r.place r.levels r.limits) ∧
      ∀ ran ∈ alone, ∀ failure, ran.outcome = .error failure → failure.error.isFatal →
        list.length + 1 ≤ failure.path.length) := by
  induction branches generalizing i meter meter' with
  | nil => exact .inr ⟨rfl, hmeter, rfl, nofun⟩
  | cons s rest ih =>
    intro rans alone
    have hlength : (list.index i).length = list.length + 1 := by simp [Path.index]
    have hfirst := h s List.mem_cons_self i scope meter meter' hmeter
    rw [← Path.append_index, hlength] at hfirst
    have hlog : (rans.map Ran.log).flatten = _ ++ _ := List.flatten_cons
    rcases hfirst with ⟨hlenient, hrefused⟩ | hmoved
    · refine .inl ⟨hlenient, ?_⟩
      rw [hlog, refusals_append]
      exact fun hnil => hrefused (List.append_eq_nil_iff.mp hnil).1
    · rcases ih (fun t ht => h t (List.mem_cons_of_mem _ ht)) (i + 1) hmoved.meter with
        ⟨hlenient, hrefused⟩ | ⟨houtcomes, hmeters, hacts, hdeep⟩
      · refine .inl ⟨hlenient, ?_⟩
        rw [hlog, refusals_append]
        exact fun hnil => hrefused (List.append_eq_nil_iff.mp hnil).2
      · refine .inr ⟨List.cons_eq_cons.mpr ⟨handedOver_moved r hmoved, houtcomes⟩, hmeters, ?_, ?_⟩
        · have halone : (alone.map Ran.log).flatten = _ ++ _ := List.flatten_cons
          rw [hlog, halone, actsIn_append, actsIn_append, List.map_append, hmoved.acts, hacts]
        · exact List.forall_mem_cons.mpr ⟨hmoved.deep, hdeep⟩

/-- Branches are joined in the same way, whatever their failures are called. -/
theorem relocates_joinBranches {level : Nat} (outputs : List (Option String)) (outcomes : List BranchOutcome)
    (hdeep : ∀ failure, .error failure ∈ outcomes → failure.error.isFatal → level ≤ failure.path.length) :
    Relocates r level (joinBranches outputs (outcomes.map (Except.mapError (Failure.moved r.place r.limits))))
      (joinBranches outputs outcomes) := by
  have hwrites (scope : Scope) :
      mergeOutputs outputs (outcomes.map (Except.mapError (Failure.moved r.place r.limits))) scope =
        mergeOutputs outputs outcomes scope := by
    have hone (scope : Scope) (entry : Option String × BranchOutcome) :
        mergeOutput scope (entry.1, entry.2.mapError (Failure.moved r.place r.limits)) = mergeOutput scope entry := by
      obtain ⟨name, outcome⟩ := entry
      cases name <;> cases outcome <;> rfl
    rw [mergeOutputs, mergeOutputs, List.zip_map_right, List.foldl_map]
    exact congrArg (List.foldl · scope _) (funext fun scope => funext (hone scope))
  have hfailures : failuresOf (outcomes.map (Except.mapError (Failure.moved r.place r.limits))) =
      (failuresOf outcomes).map (Failure.moved r.place r.limits) := by
    rw [failuresOf, failuresOf, List.filterMap_map, List.map_filterMap]
    refine congrArg (List.filterMap · outcomes) (funext fun outcome => ?_)
    cases outcome <;> rfl
  have hfailure : branchFailure? (outcomes.map (Except.mapError (Failure.moved r.place r.limits))) =
      (branchFailure? outcomes).map (Failure.moved r.place r.limits) := by
    have hfatal : ((·.error.isFatal) ∘ Failure.moved r.place r.limits) = fun failure => failure.error.isFatal :=
      funext fun failure => RunError.isFatal_quoting r.limits failure.error
    rw [branchFailure?, branchFailure?, hfailures, List.find?_map, hfatal, List.head?_map, Option.map_or]
  have hvalues : (outcomes.map (Except.mapError (Failure.moved r.place r.limits))).filterMap
      (fun outcome => outcome.toOption.map Prod.fst) = outcomes.filterMap fun outcome =>
        outcome.toOption.map Prod.fst := by
    rw [List.filterMap_map]
    refine congrArg (List.filterMap · outcomes) (funext fun outcome => ?_)
    cases outcome <;> rfl
  rw [joinBranches, joinBranches, hfailure, hvalues, funext hwrites]
  refine relocates_bind (relocates_write _) fun _ => ?_
  cases hchosen : branchFailure? outcomes with
  | none => exact relocates_pure _
  | some failure => exact relocates_raise (hdeep failure (mem_of_branchFailure hchosen))

theorem relocates_runParallel (path : Path) (depth : Nat) {branches : List Step}
    (h : ∀ s ∈ branches, engine.Movable r s) :
    Relocates r (path.length + 1)
      ((engine.under r.limits).runParallel (branches.map Step.output) ((engine.under r.limits).runSteps branches)
        (r.place ++ path) (depth + r.levels))
      ((engine.under r.alone).runParallel (branches.map Step.output) ((engine.under r.alone).runSteps branches)
        path depth) := by
  have hdepth := r.depth
  have hlevels : depth + r.levels + 1 = depth + 1 + r.levels := by omega
  have hlength : (path.key .steps).length = path.length + 1 := by simp [Path.key]
  by_cases hdeep : r.alone.maxDepth < depth + 1
  · have hdeep' : (engine.under r.limits).limits.maxDepth < depth + r.levels + 1 := by
      change r.limits.maxDepth < _
      omega
    rw [runParallel_of_deep hdeep', runParallel_of_deep hdeep, Path.append_key, ← hlength]
    exact relocates_refuse_depth r (path.key .steps)
  · have hshallow : depth + r.levels + 1 ≤ (engine.under r.limits).limits.maxDepth := by
      change _ ≤ r.limits.maxDepth
      omega
    intro scope meter meter' hmeter
    rw [runParallel_eq (engine.under r.limits) branches _ scope meter hshallow,
      runParallel_eq (engine.under r.alone) branches path scope meter' (Nat.le_of_not_lt hdeep), hlevels,
      Path.append_key]
    rcases relocates_attempts engine r (path.key .steps) (depth + 1) scope (fun s hs i => h s hs _ _) 0 hmeter with
      ⟨hlenient, hrefused⟩ | ⟨houtcomes, hmeters, hacts, hinside⟩
    · refine .inl ⟨hlenient, ?_⟩
      dsimp only
      rw [refusals_append]
      exact fun hnil => hrefused (List.append_eq_nil_iff.mp hnil).1
    · dsimp only
      rw [houtcomes]
      refine (relocates_joinBranches r _ _ (fun failure hfailure hfatal => ?_) scope _ _ hmeters).prepend hacts
      obtain ⟨ran, hran, herror⟩ := mem_handedOver.mp hfailure
      exact Nat.le_of_succ_le (hlength ▸ hinside ran hran failure herror hfatal)

end

/-! ### Kinds of step -/

section

variable (engine : Engine) (r : Relocation) (path : Path) (depth : Nat)

/-- A list that recovers has to be told of a failure in the same words. -/
theorem relocates_recovering {level : Nat} {attempt attempt' : Exec Value} {recovery : Option (List Step)}
    {f g : List Step → Exec Value} (hattempt : Relocates r level attempt attempt')
    (hrecovery : ∀ steps, recovery = some steps → r.place = [] ∧ Relocates r level (f steps) (g steps)) :
    Relocates r level (recovering (r.place ++ path) attempt (recovery.map f))
      (recovering path attempt' (recovery.map g)) := by
  refine relocates_settle_bind (relocates_transactional hattempt) fun outcome hdeep => ?_
  cases outcome with
  | ok v => exact relocates_pure v
  | error failure =>
    have hraise : Relocates r level (raise (failure.moved r.place r.limits) : Exec Value) (raise failure) :=
      relocates_raise (hdeep failure rfl)
    cases hsome : recovery with
    | none => exact hraise
    | some steps =>
      obtain ⟨hplace, hsteps⟩ := hrecovery steps hsome
      have hsame : (failure.moved r.place r.limits).error.isFatal = failure.error.isFatal :=
        RunError.isFatal_quoting r.limits failure.error
      simp only [Option.map_some, mapError_error, hsame]
      split
      · exact hraise
      next hfatal =>
        have hordinary : failure.error.isFatal = false := by simpa using hfatal
        have hmoved : failure.moved r.place r.limits = ⟨r.place ++ failure.path, failure.error⟩ :=
          Failure.moved_of_ordinary r.place r.limits hordinary
        have htext : (r.place ++ failure.path).text = failure.path.text := by rw [hplace, List.nil_append]
        rw [hmoved]
        dsimp only
        rw [htext]
        let event : Event Path := .errorRecovered path failure.path failure.error.message
        exact relocates_bind (relocates_emit event) fun _ => relocates_binding hsteps _ _

theorem relocates_ensuring {level : Nat} {x y always always' : Exec Value} (h : Relocates r level x y)
    (halways : Relocates r level always always') : Relocates r level (ensuring x always) (ensuring y always') := by
  refine relocates_settle_bind h fun outcome hdeep => ?_
  cases outcome with
  | ok v => exact relocates_bind halways fun _ => relocates_pure v
  | error failure =>
    have hraise : Relocates r level (raise (failure.moved r.place r.limits) : Exec Value) (raise failure) :=
      relocates_raise (hdeep failure rfl)
    have hsame : (failure.moved r.place r.limits).error.isFatal = failure.error.isFatal :=
      RunError.isFatal_quoting r.limits failure.error
    simp only [mapError_error, hsame]
    split
    · exact hraise
    · exact relocates_bind halways fun _ => hraise

/-- A step comes to the same inside of something larger as alone, if its lists that recover stand at the same path. -/
theorem relocates_runStep (hsteady : engine.abilities.Steady) (s : Step)
    (hplain : r.place = [] ∨ s.everywhere (!·.recovers)) : engine.Movable r s := by
  have law (path : Path) := relocates_carriesAt r (path.length + 1) path
  -- What is asked of a step is asked of the steps in its lists.
  have hinner {s : Step} (hplain : r.place = [] ∨ s.everywhere (!·.recovers)) {steps : List Step}
      (hsteps : steps ∈ s.children.map Prod.snd)
      (h : ∀ t ∈ steps, (r.place = [] ∨ t.everywhere (!·.recovers)) → engine.Movable r t) :
      ∀ t ∈ steps, engine.Movable r t :=
    fun t ht => h t ht (hplain.imp_right fun h => Step.everywhere_of_mem h hsteps t ht)
  have hlist {steps : List Step} (h : ∀ s ∈ steps, engine.Movable r s) (path : Path) (part : Key) (depth : Nat) :
      Relocates r (path.length + 1)
        ((engine.under r.limits).runList ((engine.under r.limits).runSteps steps) ((r.place ++ path).key part)
          (depth + r.levels + 1))
        ((engine.under r.alone).runList ((engine.under r.alone).runSteps steps) (path.key part) (depth + 1)) := by
    rw [Path.append_key, Nat.add_right_comm]
    exact (relocates_runSteps engine r (path.key part) (depth + 1) h).mono (by simp [Path.key])
  induction s using Step.induction with
  | ability name input output =>
    intro path depth
    rw [runStep, runStep]
    refine relocates_supervise engine r path depth _ ?_
    exact carries_runAbility (law path) _ _ _ depth name input fun input =>
      relocates_call engine r path hsteady name input
  | transform operation input params output =>
    intro path depth
    rw [runStep, runStep]
    refine relocates_supervise engine r path depth _ ?_
    exact carries_runTransform (law path) _ _ _ depth rfl operation input params
  | conditional condition whenTrue whenFalse output htrue hfalse =>
    intro path depth
    rw [runStep, runStep]
    refine relocates_supervise engine r path depth _ ?_
    have hthen := hlist (hinner hplain (by simp [Step.children]) htrue) path .thenSteps depth
    have helse := hlist (hinner hplain (by simp [Step.children]) hfalse) path .elseSteps depth
    simp only [runSteps_eq_map] at hthen helse ⊢
    exact carries_runConditional (law path) _ _ _ depth condition hthen helse
  | loop input body itemVar indexVar collect output hbody =>
    intro path depth
    rw [runStep, runStep]
    refine relocates_supervise engine r path depth _ ?_
    have hrounds := hlist (hinner hplain (by simp [Step.children]) hbody) path .steps depth
    exact carries_runLoop (law path) _ _ _ depth input _ _ itemVar indexVar collect (relocates_within hrounds)
  | parallel branches output hbranches =>
    intro path depth
    rw [runStep, runStep]
    refine relocates_supervise engine r path depth _ (relocates_runParallel engine r path depth ?_)
    exact hinner hplain (by simp [Step.children]) hbranches
  | tryCatch attempt recovery always output hattempt hrecovery halways =>
    intro path depth
    rw [runStep, runStep]
    refine relocates_supervise engine r path depth _ (relocates_ensuring r ?_ ?_)
    · rw [runProtected, runProtected, runOption_eq_map, runOption_eq_map, Option.map_map, Option.map_map]
      have htried := hlist (hinner hplain (by simp [Step.children]) hattempt) path .trySteps depth
      refine relocates_recovering r path htried fun steps hsome => ?_
      subst hsome
      have hplace : r.place = [] :=
        hplain.resolve_right fun h => absurd (Step.everywhere_iff.mp h).1 (by simp [Step.recovers])
      exact ⟨hplace, hlist (fun s hs => hrecovery steps rfl s hs (.inl hplace)) path .catchSteps depth⟩
    · have hfinally := hlist (hinner hplain (by simp [Step.children]) halways) path .finallySteps depth
      simp only [runSteps_eq_map] at hfinally ⊢
      exact binds_runUnlessEmpty (law path).binds _ _ _ _ _ _ hfinally
  | subPipeline pipeline inputs output hsteps =>
    intro path depth
    obtain ⟨name, description, steps, result, own⟩ := pipeline
    rw [runStep, runStep]
    refine relocates_supervise engine r path depth _ ?_
    refine carries_runNested (law path) _ _ _ depth _ _ result inputs (relocates_within ?_)
    rw [Path.append_key, Path.append_key, Nat.add_right_comm]
    have hnested := hinner hplain (by simp [Step.children]) hsteps
    exact (relocates_runSteps engine r _ (depth + 1) hnested).mono (by simp [Path.key])

end

end Engine

end Pipewright
