import Pipewright.Proofs.Growth

/-!
# Limits end a run

A limit that refuses a step or a list puts an end to everything around it: loops, recovering lists and those that
run in any case. Only the branches beside the one that it struck in still run, since they know nothing of each
other.
-/
namespace Pipewright

/-- The failures of limits in a log. -/
def refusals (log : List Moment) : List Failure := log.filterMap fun moment => moment.act.refusal?

/-- Where a step starts, or goes on after the failure of a step inside it. -/
def Act.entered? : Act → Option Path
  | .tell (.stepStarted path ..) | .tell (.errorRecovered path ..) => some path
  | _ => none

/-- Two places stand in branches beside each other, the first one in an earlier branch. -/
def Path.Beside (earlier later : Path) : Prop :=
  ∃ step i j, i < j ∧ (key step .steps).index i <+: earlier ∧ (key step .steps).index j <+: later

/-- After a refusal only branches beside it are entered. -/
def Moment.Yields (earlier later : Moment) : Prop :=
  ∀ failure, earlier.act.refusal? = some failure → ∀ place, later.act.entered? = some place →
    Path.Beside failure.path place

theorem Act.place?_of_entered {act : Act} {place : Path} (h : act.entered? = some place) :
    act.place? = some place := by
  cases act with
  | call | refuse => cases h
  | tell event =>
    cases event with
    | stepStarted | errorRecovered => exact h
    | _ => cases h

theorem Act.place?_of_refusal {act : Act} {failure : Failure} (h : act.refusal? = some failure) :
    act.place? = some failure.path := by
  cases act with
  | tell | call => cases h
  | refuse =>
    cases h
    rfl

@[simp] theorem refusals_append (first second : List Moment) :
    refusals (first ++ second) = refusals first ++ refusals second :=
  List.filterMap_append

theorem mem_refusals {log : List Moment} {failure : Failure} :
    failure ∈ refusals log ↔ ∃ moment ∈ log, moment.act = .refuse failure := by
  rw [refusals, List.mem_filterMap]
  refine exists_congr fun moment => and_congr_right fun _ => ?_
  cases moment.act with
  | tell | call => simp [Act.refusal?]
  | refuse => simp [Act.refusal?]

theorem yields_of_refusals_eq_nil {log : List Moment} (h : refusals log = []) {earlier : Moment}
    (hearlier : earlier ∈ log) (later : Moment) : earlier.Yields later := by
  intro failure hfailure
  have hnone := List.filterMap_eq_nil_iff.mp h earlier hearlier
  rw [hfailure] at hnone
  cases hnone

theorem pairwise_of_refusals_eq_nil {log : List Moment} (h : refusals log = []) :
    log.Pairwise Moment.Yields :=
  List.pairwise_of_forall_mem_list fun _ hearlier later _ => yields_of_refusals_eq_nil h hearlier later

/-- A limit that refuses ends the execution. -/
structure Ran.Halts {α : Type} (ran : Ran α) : Prop where
  refused : ∀ failure, ran.outcome = .error failure → failure.error.isFatal → failure ∈ refusals ran.log
  halted : ∀ refusal ∈ refusals ran.log, ∃ failure, ran.outcome = .error failure ∧ failure.error.isFatal
  yields : ran.log.Pairwise Moment.Yields

namespace Ran.Halts

variable {α β : Type} {ran : Ran α}

/-- An execution that does the same and fails in the same way halts too. -/
theorem congr (h : ran.Halts) {other : Ran β} (hlog : other.log = ran.log)
    (hfailure : ∀ failure, other.outcome = .error failure ↔ ran.outcome = .error failure) : other.Halts := by
  constructor
  · intro failure herror hfatal
    rw [hlog]
    exact h.refused failure ((hfailure failure).mp herror) hfatal
  · intro refusal hrefusal
    rw [hlog] at hrefusal
    obtain ⟨failure, herror, hfatal⟩ := h.halted refusal hrefusal
    exact ⟨failure, (hfailure failure).mpr herror, hfatal⟩
  · rw [hlog]
    exact h.yields

/-- What meets no limit, and fails for no reason that is fatal, halts. -/
theorem of_refusals_eq_nil (hlog : refusals ran.log = [])
    (hordinary : ∀ failure, ran.outcome = .error failure → failure.error.isFatal = false) : ran.Halts := by
  refine ⟨fun failure herror hfatal => ?_, ?_, pairwise_of_refusals_eq_nil hlog⟩
  · rw [hordinary failure herror] at hfatal
    cases hfatal
  · rw [hlog]
    exact nofun

/-- What did not end because of a limit has met none. -/
theorem refusals_eq_nil (h : ran.Halts)
    (hordinary : ∀ failure, ran.outcome = .error failure → failure.error.isFatal = false) :
    refusals ran.log = [] := by
  refine List.eq_nil_iff_forall_not_mem.mpr fun refusal hrefusal => ?_
  obtain ⟨failure, herror, hfatal⟩ := h.halted refusal hrefusal
  rw [hordinary failure herror] at hfatal
  cases hfatal

/-- What meets no limit may precede what halts. -/
theorem prepend (h : ran.Halts) {log : List Moment} (hlog : refusals log = []) :
    Halts { ran with log := log ++ ran.log } := by
  have hrefusals : refusals (log ++ ran.log) = refusals ran.log := by
    rw [refusals_append, hlog, List.nil_append]
  constructor
  · intro failure herror hfatal
    rw [hrefusals]
    exact h.refused failure herror hfatal
  · rw [hrefusals]
    exact h.halted
  · refine List.pairwise_append.mpr ⟨pairwise_of_refusals_eq_nil hlog, h.yields, ?_⟩
    exact fun _ hearlier later _ => yields_of_refusals_eq_nil hlog hearlier later

/-- What neither meets a limit nor enters anything may follow what halts. -/
theorem extend (h : ran.Halts) {log : List Moment}
    (hquiet : ∀ moment ∈ log, moment.act.refusal? = none ∧ moment.act.entered? = none) :
    Halts { ran with log := ran.log ++ log } := by
  have hlog : refusals log = [] := List.filterMap_eq_nil_iff.mpr fun moment hm => (hquiet moment hm).1
  have hrefusals : refusals (ran.log ++ log) = refusals ran.log := by
    rw [refusals_append, hlog, List.append_nil]
  constructor
  · intro failure herror hfatal
    rw [hrefusals]
    exact h.refused failure herror hfatal
  · rw [hrefusals]
    exact h.halted
  · refine List.pairwise_append.mpr ⟨h.yields, pairwise_of_refusals_eq_nil hlog, ?_⟩
    intro _ _ later hlater _ _ place hplace
    rw [(hquiet later hlater).2] at hplace
    cases hplace

end Ran.Halts

namespace Exec

variable {α β : Type}

/-- Limits end the execution wherever it starts. -/
def Halts (x : Exec α) : Prop := ∀ scope meter, (x scope meter).Halts

/-- The execution fails without meeting a limit itself and without entering anything. -/
def FailsQuietly (failure : Failure) (x : Exec α) : Prop :=
  ∀ scope meter, (x scope meter).outcome = .error failure ∧
    ∀ moment ∈ (x scope meter).log, moment.act.refusal? = none ∧ moment.act.entered? = none

theorem failsQuietly_raise (failure : Failure) : FailsQuietly failure (raise failure : Exec α) :=
  fun _ _ => ⟨rfl, nofun⟩

theorem FailsQuietly.halts {failure : Failure} {x : Exec α} (h : FailsQuietly failure x)
    (hordinary : failure.error.isFatal = false) : x.Halts := by
  intro scope meter
  obtain ⟨herror, hquiet⟩ := h scope meter
  refine .of_refusals_eq_nil (List.filterMap_eq_nil_iff.mpr fun moment hm => (hquiet moment hm).1) ?_
  intro other hother
  rw [herror] at hother
  exact Except.error.inj hother ▸ hordinary

theorem halts_bind {x : Exec α} {next : α → Exec β} (hx : x.Halts) (hnext : ∀ a, (next a).Halts) :
    (x >>= next).Halts := by
  intro scope meter
  cases h : (x scope meter).outcome with
  | error failure =>
    rw [bind_of_error h]
    exact (hx scope meter).congr rfl fun _ => by simp [h]
  | ok a =>
    rw [bind_of_ok h]
    refine (hnext a _ _).prepend ((hx scope meter).refusals_eq_nil ?_)
    exact fun failure herror => by simp [h] at herror

theorem halts_composes : Composes @Halts where
  pure _ := fun _ _ => Ran.Halts.of_refusals_eq_nil rfl nofun
  raise failure h := (failsQuietly_raise failure).halts h
  scope := fun _ _ => Ran.Halts.of_refusals_eq_nil rfl nofun
  bind := halts_bind

theorem halts_refuse {failure : Failure} (hfatal : failure.error.isFatal) : (refuse failure : Exec α).Halts := by
  intro scope meter
  refine ⟨fun other herror _ => ?_, fun _ _ => ⟨failure, rfl, hfatal⟩, List.pairwise_singleton _ _⟩
  cases herror
  exact List.mem_singleton_self failure

theorem halts_emit (event : Event Path) : (emit event).Halts :=
  fun _ _ => Ran.Halts.of_refusals_eq_nil rfl nofun

/-- What handles an outcome halts if it passes on the failures of limits. -/
theorem halts_settle_bind {x : Exec α} {next : Except Failure α → Exec β} (hx : x.Halts)
    (hok : ∀ a, (next (.ok a)).Halts)
    (hordinary : ∀ failure, failure.error.isFatal = false → (next (.error failure)).Halts)
    (hfatal : ∀ failure, failure.error.isFatal → FailsQuietly failure (next (.error failure))) :
    (settle x >>= next).Halts := by
  intro scope meter
  rw [settle_bind]
  have hran := hx scope meter
  generalize x scope meter = ran at hran ⊢
  cases h : ran.outcome with
  | ok a =>
    refine (hok a _ _).prepend (hran.refusals_eq_nil fun failure herror => ?_)
    rw [h] at herror
    cases herror
  | error failure =>
    cases hkind : failure.error.isFatal with
    | false =>
      refine (hordinary failure hkind _ _).prepend (hran.refusals_eq_nil fun other herror => ?_)
      rw [h] at herror
      exact Except.error.inj herror ▸ hkind
    | true =>
      -- The limit that the execution met is passed on, and what is told meanwhile enters nothing.
      obtain ⟨herror, hquiet⟩ := hfatal failure hkind ran.scope ran.meter
      exact (hran.extend hquiet).congr rfl fun _ => by simp [herror, h]

theorem halts_transactional {x : Exec α} (hx : x.Halts) : (transactional x).Halts := by
  intro scope meter
  refine (hx scope meter).congr ?_ fun failure => ?_
  · rw [transactional]
    split <;> rfl
  · rw [transactional]
    split <;> rfl

theorem halts_binding {x : Exec α} (hx : x.Halts) (name : String) (v : Value) : (binding name v x).Halts :=
  fun scope meter => (hx (scope.set name v) meter).congr rfl fun _ => Iff.rfl

theorem halts_within {x : Exec α} (hx : x.Halts) (inner : Scope) : (within inner x).Halts := by
  refine fun scope meter => (hx inner meter).congr rfl fun failure => ?_
  rw [within]
  cases (x inner meter).outcome <;> simp [Except.map]

end Exec

namespace Engine

open Exec

variable (engine : Engine) (path : Path) (depth : Nat)

theorem halts_startStep (s : Step) : (engine.startStep s path depth).Halts := by
  intro scope meter
  rcases startStep_cases engine path depth s scope meter with ⟨error, hrefuses, heq⟩ | ⟨-, heq⟩
  · rw [heq]
    have hrefuse : (Exec.refuse ⟨path, error⟩ : Exec Unit).Halts := halts_refuse hrefuses.isFatal
    exact hrefuse scope meter.tick
  · rw [heq]
    exact .of_refusals_eq_nil rfl nofun

theorem halts_endStep_ok (s : Step) (v : Value) : (endStep s path (.ok v)).Halts := by
  refine halts_bind ?_ fun _ => halts_bind ?_ fun _ => halts_bind (halts_emit _) fun _ => halts_composes.pure v
  · cases s.output <;> exact fun _ _ => .of_refusals_eq_nil rfl nofun
  · exact fun _ _ => .of_refusals_eq_nil rfl nofun

theorem failsQuietly_endStep (s : Step) (failure : Failure) :
    FailsQuietly failure (endStep s path (.error failure)) := by
  intro scope meter
  rw [endStep]
  split
  · refine ⟨rfl, fun moment hmoment => ?_⟩
    obtain rfl := List.mem_singleton.mp hmoment
    exact ⟨rfl, rfl⟩
  · exact failsQuietly_raise failure scope meter

theorem halts_supervise (s : Step) {body : Located} (h : (body path depth).Halts) :
    (engine.supervise s body path depth).Halts := by
  refine halts_bind (halts_startStep engine path depth s) fun _ => ?_
  refine halts_settle_bind h (halts_endStep_ok path s) ?_ fun failure _ => failsQuietly_endStep path s failure
  exact fun failure hordinary => (failsQuietly_endStep path s failure).halts hordinary

/-- How branches from position `i` on end if limits end each of them. -/
structure BranchesHalt (step : Path) (i : Nat) (outcomes : List BranchOutcome) (log : List Moment) : Prop where
  refused : ∀ failure, .error failure ∈ outcomes → failure.error.isFatal → failure ∈ refusals log
  halted : ∀ refusal ∈ refusals log, ∃ failure, .error failure ∈ outcomes ∧ failure.error.isFatal
  yields : log.Pairwise Moment.Yields
  placed : ∀ moment ∈ log, ∀ place, moment.act.place? = some place →
    ∃ j, i ≤ j ∧ (step.key .steps).index j <+: place

theorem BranchesHalt.cons {step : Path} {i : Nat} {first : Ran (Value × Scope)} {outcomes : List BranchOutcome}
    {log : List Moment} (hrest : BranchesHalt step (i + 1) outcomes log) (hfirst : first.Halts)
    (hplaced : ∀ moment ∈ first.log, ∀ place, moment.act.place? = some place →
      (step.key .steps).index i <+: place) :
    BranchesHalt step i (first.outcome :: outcomes) (first.log ++ log) := by
  constructor
  · intro failure hfailure hfatal
    rw [refusals_append]
    rcases List.mem_cons.mp hfailure with herror | hfailure
    · exact List.mem_append_left _ (hfirst.refused failure herror.symm hfatal)
    · exact List.mem_append_right _ (hrest.refused failure hfailure hfatal)
  · intro refusal hrefusal
    rw [refusals_append] at hrefusal
    rcases List.mem_append.mp hrefusal with hrefusal | hrefusal
    · obtain ⟨failure, herror, hfatal⟩ := hfirst.halted refusal hrefusal
      exact ⟨failure, herror ▸ List.mem_cons_self, hfatal⟩
    · obtain ⟨failure, hfailure, hfatal⟩ := hrest.halted refusal hrefusal
      exact ⟨failure, List.mem_cons_of_mem _ hfailure, hfatal⟩
  · refine List.pairwise_append.mpr ⟨hfirst.yields, hrest.yields, ?_⟩
    -- A refusal of the first branch leaves the later ones alone, which stand beside it.
    intro earlier hearlier later hlater failure hrefusal place hentered
    obtain ⟨j, hj, hlist⟩ := hrest.placed later hlater place (Act.place?_of_entered hentered)
    have hfailure := hplaced earlier hearlier failure.path (Act.place?_of_refusal hrefusal)
    exact ⟨step, i, j, hj, hfailure, hlist⟩
  · intro moment hmoment place hplace
    rcases List.mem_append.mp hmoment with hmoment | hmoment
    · exact ⟨i, Nat.le_refl i, hplaced moment hmoment place hplace⟩
    · obtain ⟨j, hj, hlist⟩ := hrest.placed moment hmoment place hplace
      exact ⟨j, Nat.le_of_succ_le hj, hlist⟩

theorem branchesHalt_settleBranches {branches : List Located}
    (h : ∀ branch ∈ branches, ∀ i, (branch ((path.key .steps).index i) depth).Halts ∧
      (branch ((path.key .steps).index i) depth).GrowsAt engine.limits ((path.key .steps).index i))
    (i : Nat) (scope : Scope) (meter : Meter) :
    ∃ outcomes, (settleBranches (path.key .steps) depth i branches scope meter).outcome = .ok outcomes ∧
      BranchesHalt path i outcomes (settleBranches (path.key .steps) depth i branches scope meter).log := by
  induction branches generalizing i scope meter with
  | nil => exact ⟨[], rfl, nofun, nofun, .nil, nofun⟩
  | cons branch rest ih =>
    obtain ⟨hhalts, hgrows⟩ := h branch List.mem_cons_self i
    let first := fork (branch ((path.key .steps).index i) depth) scope meter
    have hfirst : first.Halts := halts_bind halts_composes.scope (halts_within hhalts) scope meter
    have hplaced (moment) (hmoment : moment ∈ first.log) (place) (hplace : moment.act.place? = some place) :=
      (hgrows scope meter).placed hmoment hplace
    obtain ⟨outcomes, hsettled, hrest⟩ :=
      ih (fun b hb => h b (List.mem_cons_of_mem _ hb)) (i + 1) first.scope first.meter
    refine ⟨first.outcome :: outcomes, ?_⟩
    rw [settleBranches, settle_bind, bind_of_ok hsettled]
    refine ⟨rfl, ?_⟩
    change BranchesHalt path i _ (first.log ++ (_ ++ []))
    rw [List.append_nil]
    exact hrest.cons hfirst hplaced

theorem mem_failures {outcomes : List BranchOutcome} {failure : Failure} :
    failure ∈ failuresOf outcomes ↔ .error failure ∈ outcomes := by
  rw [failuresOf, List.mem_filterMap]
  constructor
  · rintro ⟨outcome, hmem, houtcome⟩
    cases outcome with
    | ok => cases houtcome
    | error other =>
      cases houtcome
      exact hmem
  · intro hmem
    exact ⟨_, hmem, rfl⟩

theorem mem_of_branchFailure {outcomes : List BranchOutcome} {failure : Failure}
    (h : branchFailure? outcomes = some failure) : .error failure ∈ outcomes := by
  rw [branchFailure?] at h
  refine mem_failures.mp ?_
  rcases Option.or_eq_some_iff.mp h with hfatal | ⟨-, hfirst⟩
  · exact List.mem_of_find?_eq_some hfatal
  · exact List.mem_of_head? hfirst

/-- If a limit ended a branch, then a limit is what the branches fail with. -/
theorem branchFailure_of_fatal {outcomes : List BranchOutcome} {failure : Failure}
    (hmem : .error failure ∈ outcomes) (hfatal : failure.error.isFatal) :
    ∃ chosen, branchFailure? outcomes = some chosen ∧ chosen.error.isFatal := by
  have hfound : ((failuresOf outcomes).find? (·.error.isFatal)).isSome :=
    List.find?_isSome.mpr ⟨failure, mem_failures.mpr hmem, hfatal⟩
  obtain ⟨chosen, hchosen⟩ := Option.isSome_iff_exists.mp hfound
  refine ⟨chosen, ?_, List.find?_some (p := fun failure : Failure => failure.error.isFatal) hchosen⟩
  rw [branchFailure?, hchosen, Option.some_or]

/-- Branches fail together with a limit if one of them met a limit. -/
theorem BranchesHalt.join {step : Path} {i : Nat} {outcomes : List BranchOutcome} {log : List Moment}
    (h : BranchesHalt step i outcomes log) (outputs : List (Option String)) (scope : Scope) (meter : Meter) :
    let joined := joinBranches outputs outcomes scope meter
    Ran.Halts { joined with log := log ++ joined.log } := by
  rw [joinBranches]
  cases hchosen : branchFailure? outcomes with
  | none =>
    refine .of_refusals_eq_nil (List.eq_nil_iff_forall_not_mem.mpr fun refusal hrefusal => ?_) nofun
    change refusal ∈ refusals (log ++ []) at hrefusal
    rw [List.append_nil] at hrefusal
    obtain ⟨failure, hmem, hfatal⟩ := h.halted refusal hrefusal
    obtain ⟨chosen, hsome, -⟩ := branchFailure_of_fatal hmem hfatal
    rw [hchosen] at hsome
    cases hsome
  | some chosen =>
    change Ran.Halts ⟨.error chosen, _, _, log ++ []⟩
    rw [List.append_nil]
    refine ⟨fun failure herror hfatal => ?_, fun refusal hrefusal => ?_, h.yields⟩
    · cases herror
      exact h.refused chosen (mem_of_branchFailure hchosen) hfatal
    · obtain ⟨failure, hmem, hfatal⟩ := h.halted refusal hrefusal
      obtain ⟨other, hsome, hother⟩ := branchFailure_of_fatal hmem hfatal
      rw [hchosen] at hsome
      cases hsome
      exact ⟨chosen, rfl, hother⟩

theorem halts_runParallel (outputs : List (Option String)) {branches : List Located}
    (h : depth + 1 ≤ engine.limits.maxDepth → ∀ branch ∈ branches, ∀ i,
      (branch ((path.key .steps).index i) (depth + 1)).Halts ∧
        (branch ((path.key .steps).index i) (depth + 1)).GrowsAt engine.limits ((path.key .steps).index i)) :
    (engine.runParallel outputs branches path depth).Halts := by
  rw [runParallel, checkDepth]
  split
  next hdeep => exact halts_refuse rfl
  next hdeep =>
    refine halts_bind (halts_composes.pure ()) fun _ scope meter => ?_
    obtain ⟨outcomes, hsettled, hbranches⟩ :=
      branchesHalt_settleBranches engine path (depth + 1) (h (Nat.not_lt.mp hdeep)) 0 scope meter
    rw [bind_of_ok hsettled]
    exact hbranches.join outputs _ _

theorem halts_call (name : String) (input : Value) : (engine.call path name input).Halts := by
  rw [call]
  cases engine.abilities.ability? name with
  | none => exact halts_composes.raise _ rfl
  | some ability =>
    have hanswer (before : List Call) :
        (Exec.lift path ((ability before input).mapError (.abilityFailed name))).Halts :=
      halts_composes.lift (abilityFailed_ordinary name _)
    exact fun scope meter => (hanswer meter.calls scope (meter.remember ⟨name, input⟩)).prepend rfl

/-- A list halts if its steps do. -/
theorem halts_runSteps {steps : List Step}
    (h : ∀ s ∈ steps, ∀ path depth, (engine.runStep s path depth).Halts) :
    (engine.runList (engine.runSteps steps) path depth).Halts :=
  composes_runList halts_composes engine path depth (fun _ => halts_refuse rfl) fun _ =>
    forall_mem_runSteps fun s hs _ => h s hs _ _

theorem halts_recovering {attempt : Exec Value} {recovery : Option (Exec Value)} (hattempt : attempt.Halts)
    (hrecovery : ∀ x, recovery = some x → x.Halts) : (recovering path attempt recovery).Halts := by
  refine halts_settle_bind (halts_transactional hattempt) halts_composes.pure ?_ ?_
  · intro failure hordinary
    cases recovery with
    | none => exact halts_composes.raise failure hordinary
    | some recovery =>
      simp only [hordinary, Bool.false_eq_true, if_false]
      exact halts_bind (halts_emit _) fun _ => halts_binding (hrecovery recovery rfl) _ _
  · intro failure hfatal
    cases recovery with
    | none => exact failsQuietly_raise failure
    | some recovery =>
      simp only [hfatal, if_true]
      exact failsQuietly_raise failure

theorem halts_ensuring {x always : Exec Value} (hx : x.Halts) (halways : always.Halts) :
    (ensuring x always).Halts := by
  refine halts_settle_bind hx (fun v => ?_) (fun failure hordinary => ?_) fun failure hfatal => ?_
  · exact halts_bind halways fun _ => halts_composes.pure v
  · simp only [hordinary, Bool.false_eq_true, if_false]
    exact halts_bind halways fun _ => halts_composes.raise failure hordinary
  · simp only [hfatal, if_true]
    exact failsQuietly_raise failure

/-- Limits end a step whatever is inside it. -/
theorem halts_runStep (s : Step) : ∀ path depth, (engine.runStep s path depth).Halts := by
  induction s using Step.induction with
  | ability name input output =>
    intro path depth
    rw [runStep]
    refine halts_supervise engine path depth _ ?_
    exact composes_runAbility halts_composes engine path depth name input (halts_call engine path name)
  | transform operation input params output =>
    intro path depth
    rw [runStep]
    refine halts_supervise engine path depth _ ?_
    exact composes_runTransform halts_composes engine path depth operation input params
  | conditional condition whenTrue whenFalse output htrue hfalse =>
    intro path depth
    rw [runStep]
    refine halts_supervise engine path depth _ ?_
    refine composes_runConditional halts_composes engine path depth condition ?_ ?_
    · exact halts_runSteps engine _ _ htrue
    · exact halts_runSteps engine _ _ hfalse
  | loop input body itemVar indexVar collect output hbody =>
    intro path depth
    rw [runStep]
    refine halts_supervise engine path depth _ ?_
    refine composes_runLoop halts_composes engine path depth input itemVar indexVar collect ?_
    exact halts_within (halts_runSteps engine _ _ hbody)
  | parallel branches output hbranches =>
    intro path depth
    rw [runStep]
    refine halts_supervise engine path depth _ ?_
    refine halts_runParallel engine path depth _ fun hdeep => ?_
    refine forall_mem_runSteps fun s hs i => ⟨hbranches s hs _ _, ?_⟩
    exact growsAt_runStep engine s _ _ hdeep
  | tryCatch attempt recovery always output hattempt hrecovery halways =>
    intro path depth
    rw [runStep]
    refine halts_supervise engine path depth _ ?_
    refine halts_ensuring (halts_recovering path (halts_runSteps engine _ _ hattempt) ?_) ?_
    · exact forall_eq_some_runOption fun steps hsome => halts_runSteps engine _ _ (hrecovery steps hsome)
    · exact composes_runUnlessEmpty halts_composes engine _ _ (halts_runSteps engine _ _ halways)
  | subPipeline pipeline inputs output hsteps =>
    intro path depth
    obtain ⟨name, description, steps, result, limits⟩ := pipeline
    rw [runStep]
    refine halts_supervise engine path depth _ ?_
    refine composes_runNested halts_composes engine path depth result inputs ?_
    exact halts_within (halts_runSteps engine _ _ hsteps)

theorem halts_runTop (pipeline : Pipeline) (context : Value) (clock : Clock) :
    (engine.runTop pipeline context clock).Halts :=
  halts_runSteps engine Path.top 0 (fun s _ => halts_runStep engine s) _ _

end Engine

end Pipewright
