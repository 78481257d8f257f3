import Pipewright.Proofs.Promptness
import Pipewright.Proofs.RelocatedSteps

/-!
# Jobs at another place

A job that may have to wait comes to the same inside of something larger as alone, if nothing else goes on meanwhile. It
waits at the same points in both, and what it does from one of them to the next is the same but for the place. Branches
take the same turns in both, so each of them finds the same left of the limits.
-/
namespace Pipewright

/-- The same is done at two places. -/
def Relocation.Repeats (r : Relocation) (log log' : List Moment) : Prop :=
  actsIn log = (actsIn log').map (Act.moved r.place r.levels r.limits)

theorem Relocation.Repeats.append {r : Relocation} {first first' second second' : List Moment}
    (h : r.Repeats first first') (hsecond : r.Repeats second second') :
    r.Repeats (first ++ second) (first' ++ second') := by
  rw [Repeats, actsIn_append, actsIn_append, List.map_append, h, hsecond]

namespace Progress

variable {α α' β β' : Type} {r : Relocation}

/-- Two things do the same at two places until they wait or end, with values that have to do with each other; and if
they wait, they do so again when they are polled, as long as the meters have to do with each other. -/
inductive InStep (r : Relocation) (R : α → α' → Prop) : Progress α → Progress α' → Prop where
  | ended {a : α} {a' : α'} {meter meter' : Meter} {log log' : List Moment} :
    R a a' → r.meters meter meter' → r.Repeats log log' → InStep r R (.ended a meter log) (.ended a' meter' log')
  | waiting {meter meter' : Meter} {log log' : List Moment} {resume : Meter → Progress α}
    {resume' : Meter → Progress α'} : r.meters meter meter' → r.Repeats log log' →
    (∀ next next', r.meters next next' → InStep r R (resume next) (resume' next')) →
    InStep r R (.waiting meter log resume) (.waiting meter' log' resume')

namespace InStep

variable {R : α → α' → Prop} {S : β → β' → Prop} {p : Progress α} {p' : Progress α'}

theorem meter (h : InStep r R p p') : r.meters p.meter p'.meter := by
  cases h with
  | ended _ hmeter _ => exact hmeter
  | waiting hmeter _ _ => exact hmeter

theorem after {past past' : List Moment} (hpast : r.Repeats past past') (h : InStep r R p p') :
    InStep r R (p.after past) (p'.after past') := by
  cases h with
  | ended hvalue hmeter hlog => exact .ended hvalue hmeter (hpast.append hlog)
  | waiting hmeter hlog hresume => exact .waiting hmeter (hpast.append hlog) hresume

theorem andThen {next : α → Meter → Progress β} {next' : α' → Meter → Progress β'} (h : InStep r R p p')
    (hnext : ∀ a a', R a a' → ∀ meter meter', r.meters meter meter' → InStep r S (next a meter) (next' a' meter')) :
    InStep r S (p.andThen next) (p'.andThen next') := by
  induction h with
  | ended hvalue hmeter hlog => exact (hnext _ _ hvalue _ _ hmeter).after hlog
  | waiting hmeter hlog _ ih => exact .waiting hmeter hlog ih

theorem mono {R' : α → α' → Prop} (h : InStep r R p p') (himp : ∀ a a', R a a' → R' a a') : InStep r R' p p' := by
  induction h with
  | ended hvalue hmeter hlog => exact .ended (himp _ _ hvalue) hmeter hlog
  | waiting hmeter hlog _ ih => exact .waiting hmeter hlog ih

theorem map {f : α → β} {f' : α' → β'} (h : InStep r R p p') (hf : ∀ a a', R a a' → S (f a) (f' a')) :
    InStep r S (p.map f) (p'.map f') := by
  induction h with
  | ended hvalue hmeter hlog => exact .ended (hf _ _ hvalue) hmeter hlog
  | waiting hmeter hlog _ ih => exact .waiting hmeter hlog ih

/-- Two things beside each other take turns at one place as at the other. -/
theorem beside {other : Progress β} {other' : Progress β'} (h : InStep r R p p') (hother : InStep r S other other') :
    InStep r (fun pair pair' => R pair.1 pair'.1 ∧ S pair.2 pair'.2) (p.beside other) (p'.beside other') := by
  induction h generalizing other other' with
  | ended hvalue hmeter hlog =>
    cases hother with
    | ended hvalue' hmeter' hlog' => exact .ended ⟨hvalue, hvalue'⟩ hmeter' (hlog.append hlog')
    | waiting hmeter' hlog' hresume =>
      exact .waiting hmeter' (hlog.append hlog') fun next next' hnext =>
        (hresume next next' hnext).map fun _ _ hother => ⟨hvalue, hother⟩
  | waiting hmeter hlog hresume ih =>
    cases hother with
    | ended hvalue' hmeter' hlog' =>
      exact .waiting hmeter' (hlog.append hlog') fun next next' hnext =>
        (hresume next next' hnext).map fun _ _ hvalue => ⟨hvalue, hvalue'⟩
    | waiting hmeter' hlog' hresume' =>
      exact .waiting hmeter' (hlog.append hlog') fun next next' hnext =>
        ih next next' hnext (hresume' _ _ (hresume next next' hnext).meter)

end InStep

end Progress

namespace Job

variable {α β : Type} {r : Relocation} {level inner : Nat}

/-- A job has ended as it has alone, but for where it stands. If a limit ended it, then deep enough inside. -/
structure EndsMoved (r : Relocation) (level : Nat) (ended alone : Except Failure α × Scope) : Prop where
  eq : ended = (alone.1.mapError (Failure.moved r.place r.limits), alone.2)
  deep : ∀ failure, alone.1 = .error failure → failure.error.isFatal → level ≤ failure.path.length

/-- Wherever two jobs start with meters as they are to be, and are polled with such meters, the first one does the same
as the other one alone. -/
def Relocates (r : Relocation) (level : Nat) (x y : Job α) : Prop :=
  ∀ scope meter meter', r.meters meter meter' →
    Progress.InStep r (EndsMoved r level) (x scope meter) (y scope meter')

theorem EndsMoved.mono {ended alone : Except Failure α × Scope} (h : EndsMoved r inner ended alone)
    (hlevel : level ≤ inner) : EndsMoved r level ended alone :=
  ⟨h.eq, fun failure herror hfatal => Nat.le_trans hlevel (h.deep failure herror hfatal)⟩

theorem Relocates.mono {x y : Job α} (h : Relocates r inner x y) (hlevel : level ≤ inner) : Relocates r level x y :=
  fun scope meter meter' hmeter => (h scope meter meter' hmeter).mono fun _ _ hended => hended.mono hlevel

theorem relocates_ofExec (hstrict : ¬ r.lenient) {x y : Exec α} (h : x.Relocates r level y) :
    Relocates r level (ofExec x) (ofExec y) := by
  intro scope meter meter' hmeter
  have hmoved := (h scope meter meter' hmeter).resolve_left fun hrefused => hstrict hrefused.1
  exact .ended ⟨Prod.ext hmoved.outcome hmoved.scope, hmoved.deep⟩ hmoved.meter hmoved.acts

theorem relocates_bind {x y : Job α} {next next' : α → Job β} (h : Relocates r level x y)
    (hnext : ∀ a, Relocates r level (next a) (next' a)) : Relocates r level (x >>= next) (y >>= next') := by
  intro scope meter meter' hmeter
  refine (h scope meter meter' hmeter).andThen fun ended (alone, final) hended meter meter' hmeter => ?_
  obtain ⟨rfl, hdeep⟩ := hended
  cases alone with
  | error failure =>
    refine .ended ⟨rfl, fun other herror => ?_⟩ hmeter rfl
    cases herror
    exact hdeep failure rfl
  | ok a => exact hnext a _ _ _ hmeter

theorem relocates_settle_bind {x y : Job α} {next next' : Except Failure α → Job β} (h : Relocates r inner x y)
    (hnext : ∀ outcome, (∀ failure, outcome = .error failure → failure.error.isFatal → inner ≤ failure.path.length) →
      Relocates r level (next (outcome.mapError (Failure.moved r.place r.limits))) (next' outcome)) :
    Relocates r level (settle x >>= next) (settle y >>= next') := by
  intro scope meter meter' hmeter
  rw [settle_bind_apply, settle_bind_apply]
  refine (h scope meter meter' hmeter).andThen fun ended (alone, final) hended meter meter' hmeter => ?_
  obtain ⟨rfl, hdeep⟩ := hended
  exact hnext alone hdeep _ _ _ hmeter

theorem relocates_within {x y : Job α} (h : Relocates r level x y) (scope : Scope) :
    Relocates r level (within scope x) (within scope y) := by
  intro outer meter meter' hmeter
  refine (h scope meter meter' hmeter).map fun ended (alone, final) hended => ?_
  obtain ⟨rfl, hdeep⟩ := hended
  cases alone with
  | error failure =>
    refine ⟨rfl, fun other herror => ?_⟩
    cases herror
    exact hdeep failure rfl
  | ok a => exact ⟨rfl, nofun⟩

theorem relocates_transactional {x y : Job α} (h : Relocates r level x y) :
    Relocates r level (transactional x) (transactional y) := by
  intro scope meter meter' hmeter
  refine (h scope meter meter' hmeter).map fun ended (alone, final) hended => ?_
  obtain ⟨rfl, hdeep⟩ := hended
  cases alone with
  | error failure => exact ⟨rfl, hdeep⟩
  | ok a => exact ⟨rfl, nofun⟩

end Job

/-- The runtime with other limits. -/
def Runtime.under (runtime : Runtime) (limits : Limits) : Runtime := { runtime with limits := limits }

/-- What is nested too deep at one place is so at the other, and is refused there. -/
theorem Engine.relocates_checkDepth (engine : Engine) (r : Relocation) (path : Path) (depth : Nat) :
    ((engine.under r.limits).checkDepth (r.place ++ path) (depth + r.levels)).Relocates r path.length
      ((engine.under r.alone).checkDepth path depth) := by
  have hlimits : r.limits.maxDepth < depth + r.levels ↔ r.alone.maxDepth < depth := by
    have hdepth := r.depth
    omega
  change Exec.Relocates r _ (if r.limits.maxDepth < _ then _ else _) (if r.alone.maxDepth < _ then _ else _)
  by_cases hdeep : r.alone.maxDepth < depth
  · rw [if_pos hdeep, if_pos (hlimits.mpr hdeep)]
    exact relocates_refuse_depth r path
  · rw [if_neg hdeep, if_neg (mt hlimits.mp hdeep)]
    exact Exec.relocates_pure ()

namespace Runtime

open Job

/-- Wherever a step is run, it comes to the same inside of something larger as alone. -/
def Movable (runtime : Runtime) (r : Relocation) (s : Step) : Prop :=
  ∀ path depth, Job.Relocates r path.length
    ((runtime.under r.limits).runStep s (r.place ++ path) (depth + r.levels))
    ((runtime.under r.alone).runStep s path depth)

variable (runtime : Runtime) {r : Relocation} (hstrict : ¬ r.lenient)

section

variable (path : Path) (depth : Nat) {level : Nat}

include hstrict

theorem relocates_scope : Job.Relocates r level (ofExec Exec.scope) (ofExec Exec.scope) :=
  relocates_ofExec hstrict (Exec.relocates_carriesAt r level []).scope

theorem relocates_pure {α : Type} (a : α) : Job.Relocates r level (pure a : Job α) (pure a) :=
  relocates_ofExec hstrict (Exec.relocates_pure a)

theorem relocates_lift {α : Type} {result : Except RunError α} (h : Ordinary result) :
    Job.Relocates r level (ofExec (.lift (r.place ++ path) result)) (ofExec (.lift path result)) :=
  relocates_ofExec hstrict ((Exec.relocates_carriesAt r level path).lift h)

/-- What is made of the scope at one place is made of it at the other, and what goes wrong in that is ordinary. -/
theorem relocates_reading {α β : Type} {f : Scope → Except RunError α} (hordinary : ∀ scope, Ordinary (f scope))
    {next next' : Scope → α → Job β} (h : ∀ scope a, Job.Relocates r level (next scope a) (next' scope a)) :
    Job.Relocates r level (do let scope ← ofExec Exec.scope; ofExec (.lift (r.place ++ path) (f scope)) >>= next scope)
      (do let scope ← ofExec Exec.scope; ofExec (.lift path (f scope)) >>= next' scope) :=
  relocates_bind (relocates_ofExec hstrict (Exec.relocates_carriesAt r level path).scope) fun scope =>
    relocates_bind (relocates_lift hstrict path (hordinary scope)) (h scope)

theorem relocates_supervise (s : Step) {body body' : LocatedJob}
    (h : Job.Relocates r (path.length + 1) (body (r.place ++ path) (depth + r.levels)) (body' path depth)) :
    Job.Relocates r path.length ((runtime.under r.limits).supervise s body (r.place ++ path) (depth + r.levels))
      ((runtime.under r.alone).supervise s body' path depth) :=
  relocates_bind (relocates_ofExec hstrict (Engine.relocates_startStep runtime.admission r path depth s)) fun _ =>
    relocates_settle_bind h fun outcome hdeep =>
      relocates_ofExec hstrict (Engine.relocates_endStep r path s outcome hdeep)

/-- A service keeps both waiting for the same time, and has the same answer for both. -/
theorem relocates_await (name : String) {reply : Reply} (h : reply.Steady) :
    Job.Relocates r level (await (r.place ++ path) name reply) (await path name reply) := by
  induction reply with
  | answer result =>
    exact relocates_lift hstrict path (abilityFailed_ordinary name result)
  | pending later ih =>
    intro scope meter meter' hmeter
    refine .waiting hmeter rfl fun next next' hnext => ?_
    rw [h.1 next.calls next'.calls]
    exact ih next'.calls (h.2 _) scope next next' hnext

theorem relocates_call (hsteady : runtime.services.Steady) (name : String) (input : Value) :
    Job.Relocates r level ((runtime.under r.limits).call (r.place ++ path) name input)
      ((runtime.under r.alone).call path name input) := by
  cases hservice : runtime.services.service? name with
  | none =>
    rw [call, call, under, under, hservice]
    exact relocates_ofExec hstrict (Exec.relocates_raise_own path rfl)
  | some service =>
    obtain ⟨hsame, hreply⟩ := hsteady name service hservice
    intro scope meter meter' hmeter
    rw [call_of_some (runtime.under r.limits) hservice, call_of_some (runtime.under r.alone) hservice,
      hsame meter.calls meter'.calls]
    exact (relocates_await hstrict path name (hreply _ _) scope _ _ (r.remember _ hmeter)).after rfl

/-- A list comes to the same at both places if its steps do. -/
theorem relocates_runSteps {steps : List Step} (h : ∀ s ∈ steps, runtime.Movable r s) :
    Job.Relocates r path.length
      ((runtime.under r.limits).runList ((runtime.under r.limits).runSteps steps) (r.place ++ path) (depth + r.levels))
      ((runtime.under r.alone).runList ((runtime.under r.alone).runSteps steps) path depth) := by
  have hsequence (i : Nat) (last : Value) : Job.Relocates r path.length
      (sequence (r.place ++ path) (depth + r.levels) i last ((runtime.under r.limits).runSteps steps))
      (sequence path depth i last ((runtime.under r.alone).runSteps steps)) := by
    induction steps generalizing i last with
    | nil => exact relocates_pure hstrict last
    | cons s rest ih =>
      have hlength : path.length ≤ (path.index i).length := by simp [Path.index]
      have hfirst := (h s List.mem_cons_self (path.index i) depth).mono hlength
      rw [← Path.append_index] at hfirst
      exact relocates_bind hfirst fun v => ih (fun t ht => h t (List.mem_cons_of_mem _ ht)) (i + 1) v
  have hdepth := Engine.relocates_checkDepth runtime.admission r path depth
  exact relocates_bind (relocates_ofExec hstrict hdepth) fun _ => hsequence 0 .null

theorem relocates_runUnlessEmpty {steps : List Step} (h : ∀ s ∈ steps, runtime.Movable r s) :
    Job.Relocates r path.length
      ((runtime.under r.limits).runUnlessEmpty ((runtime.under r.limits).runSteps steps) (r.place ++ path)
        (depth + r.levels))
      ((runtime.under r.alone).runUnlessEmpty ((runtime.under r.alone).runSteps steps) path depth) := by
  cases steps with
  | nil => exact relocates_pure hstrict Value.null
  | cons s rest => exact relocates_runSteps runtime hstrict path depth h

/-- A list of a step comes to the same at both places if its steps do. -/
theorem relocates_part {steps : List Step} (h : ∀ s ∈ steps, runtime.Movable r s) (part : Key) :
    Job.Relocates r (path.length + 1)
      ((runtime.under r.limits).runList ((runtime.under r.limits).runSteps steps) ((r.place ++ path).key part)
        (depth + r.levels + 1))
      ((runtime.under r.alone).runList ((runtime.under r.alone).runSteps steps) (path.key part) (depth + 1)) := by
  rw [Path.append_key, Nat.add_right_comm]
  exact (relocates_runSteps runtime hstrict (path.key part) (depth + 1) h).mono (by simp [Path.key])

theorem relocates_partUnlessEmpty {steps : List Step} (h : ∀ s ∈ steps, runtime.Movable r s) (part : Key) :
    Job.Relocates r (path.length + 1)
      ((runtime.under r.limits).runUnlessEmpty ((runtime.under r.limits).runSteps steps) ((r.place ++ path).key part)
        (depth + r.levels + 1))
      ((runtime.under r.alone).runUnlessEmpty ((runtime.under r.alone).runSteps steps) (path.key part)
        (depth + 1)) := by
  rw [Path.append_key, Nat.add_right_comm]
  exact (relocates_runUnlessEmpty runtime hstrict (path.key part) (depth + 1) h).mono (by simp [Path.key])

theorem relocates_iterate {body body' : Job Value} (h : Job.Relocates r level body body') (itemVar : String)
    (indexVar collect : Option String) (items : List (Value × Value)) :
    Job.Relocates r level (iterate body itemVar indexVar collect items)
      (iterate body' itemVar indexVar collect items) := by
  induction items with
  | nil => exact relocates_pure hstrict []
  | cons item rest ih =>
    refine relocates_bind (relocates_scope hstrict) fun scope => relocates_bind (relocates_within h _) fun (_, _) => ?_
    exact relocates_bind ih fun _ => relocates_pure hstrict _

omit hstrict in
/-- Branches are started in the same order at both places, with meters that have to do with each other, and wait at the
same points. -/
theorem relocates_branchesFrom {branches : List Step} (h : ∀ s ∈ branches, runtime.Movable r s) (i : Nat)
    (scope : Scope) {meter meter' : Meter} (hmeter : r.meters meter meter') :
    Progress.InStep r
      (fun outcomes alone => outcomes = alone.map (Except.mapError (Failure.moved r.place r.limits)) ∧
        ∀ failure, .error failure ∈ alone → failure.error.isFatal → path.length ≤ failure.path.length)
      (branchesFrom (r.place ++ path) (depth + r.levels) scope i ((runtime.under r.limits).runSteps branches) meter)
      (branchesFrom path depth scope i ((runtime.under r.alone).runSteps branches) meter') := by
  induction branches generalizing i meter meter' with
  | nil => exact .ended ⟨rfl, nofun⟩ hmeter rfl
  | cons s rest ih =>
    have hlength : path.length ≤ (path.index i).length := by simp [Path.index]
    have hfirst := (h s List.mem_cons_self (path.index i) depth).mono hlength scope meter meter' hmeter
    rw [← Path.append_index] at hfirst
    have hothers := ih (fun t ht => h t (List.mem_cons_of_mem _ ht)) (i + 1) hfirst.meter
    refine (hfirst.beside hothers).map ?_
    rintro ⟨ended, others⟩ ⟨⟨outcome, final⟩, alone⟩ ⟨⟨rfl, hdeep⟩, rfl, hinside⟩
    refine ⟨?_, fun failure hmem hfatal => ?_⟩
    · cases outcome <;> rfl
    · rcases List.mem_cons.mp hmem with hown | hother
      · cases outcome with
        | ok v => cases hown
        | error =>
          cases hown
          exact hdeep failure rfl hfatal
      · exact hinside failure hother hfatal

theorem relocates_runParallel {branches : List Step} (h : ∀ s ∈ branches, runtime.Movable r s)
    (outputs : List (Option String)) :
    Job.Relocates r (path.length + 1)
      ((runtime.under r.limits).runParallel outputs ((runtime.under r.limits).runSteps branches) (r.place ++ path)
        (depth + r.levels))
      ((runtime.under r.alone).runParallel outputs ((runtime.under r.alone).runSteps branches) path depth) := by
  have hlength : (path.key .steps).length = path.length + 1 := by simp [Path.key]
  rw [← hlength, runParallel, runParallel, Path.append_key, Nat.add_right_comm]
  refine relocates_bind (relocates_ofExec hstrict (Engine.relocates_checkDepth runtime.admission r _ _)) fun _ => ?_
  intro scope meter meter' hmeter
  let Joined (ended alone : Except Failure (List Engine.BranchOutcome) × Scope) : Prop :=
    ∃ outcomes, ended = (.ok (outcomes.map (Except.mapError (Failure.moved r.place r.limits))), scope) ∧
      alone = (.ok outcomes, scope) ∧ ∀ failure, .error failure ∈ outcomes → failure.error.isFatal →
        (path.key .steps).length ≤ failure.path.length
  have hbranches := relocates_branchesFrom runtime (path.key .steps) (depth + 1) h 0 scope hmeter
  refine (hbranches.map (S := Joined) ?_).andThen ?_
  · rintro _ outcomes ⟨rfl, hdeep⟩
    exact ⟨outcomes, rfl, rfl, hdeep⟩
  · rintro _ _ ⟨outcomes, rfl, rfl, hdeep⟩ meter meter' hmeter
    exact relocates_ofExec hstrict (Engine.relocates_joinBranches r outputs outcomes hdeep) scope meter meter' hmeter

/-- A list without one to recover with has its failure passed on. -/
theorem relocates_recovering {attempt attempt' : Job Value} (h : Job.Relocates r level attempt attempt') :
    Job.Relocates r level (recovering (r.place ++ path) attempt none) (recovering path attempt' none) := by
  refine relocates_settle_bind (relocates_transactional h) fun outcome hdeep => ?_
  cases outcome with
  | ok v => exact relocates_pure hstrict v
  | error failure => exact relocates_ofExec hstrict (Exec.relocates_raise (hdeep failure rfl))

theorem relocates_ensuring {x y always always' : Job Value} (h : Job.Relocates r level x y)
    (halways : Job.Relocates r level always always') :
    Job.Relocates r level (ensuring x always) (ensuring y always') := by
  refine relocates_settle_bind h fun outcome hdeep => ?_
  cases outcome with
  | ok v => exact relocates_bind halways fun _ => relocates_pure hstrict v
  | error failure =>
    have hraise := relocates_ofExec (α := Value) hstrict (Exec.relocates_raise (hdeep failure rfl))
    simp only [mapError_error, Failure.moved, RunError.isFatal_quoting] at hraise ⊢
    split
    · exact hraise
    · exact relocates_bind halways fun _ => hraise

end

include hstrict

/-- A step comes to the same inside of something larger as alone, if no list of it recovers from a failure. -/
theorem relocates_runStep (hsteady : runtime.services.Steady)
    (hregistry : ∀ operation data params, Ordinary (runtime.registry.run operation data params)) (s : Step)
    (hplain : s.everywhere (!·.recovers)) : runtime.Movable r s := by
  -- What is asked of a step is asked of the steps in its lists.
  have hinner {s : Step} (hplain : s.everywhere (!·.recovers)) {steps : List Step}
      (hsteps : steps ∈ s.children.map Prod.snd) (h : ∀ t ∈ steps, t.everywhere (!·.recovers) → runtime.Movable r t) :
      ∀ t ∈ steps, runtime.Movable r t :=
    fun t ht => h t ht (Step.everywhere_of_mem hplain hsteps t ht)
  induction s using Step.induction with
  | ability name input output =>
    intro path depth
    rw [runStep, runStep]
    refine relocates_supervise runtime hstrict path depth _ ?_
    refine relocates_reading hstrict path input.resolve_ordinary fun _ input => ?_
    exact relocates_call runtime hstrict path hsteady name input
  | transform operation input params output =>
    intro path depth
    rw [runStep, runStep]
    refine relocates_supervise runtime hstrict path depth _ ?_
    refine relocates_reading hstrict path input.resolve_ordinary fun scope data => ?_
    refine relocates_bind (relocates_lift hstrict path (Value.resolveFields_ordinary scope params)) fun params => ?_
    exact relocates_lift hstrict path (hregistry operation data params)
  | conditional condition whenTrue whenFalse output htrue hfalse =>
    intro path depth
    rw [runStep, runStep]
    refine relocates_supervise runtime hstrict path depth _ ?_
    refine relocates_reading hstrict path condition.evaluate_ordinary fun _ holds => ?_
    cases holds with
    | true =>
      have hsteps := hinner hplain (by simp [Step.children]) htrue
      exact relocates_partUnlessEmpty runtime hstrict path depth hsteps .thenSteps
    | false =>
      have hsteps := hinner hplain (by simp [Step.children]) hfalse
      exact relocates_partUnlessEmpty runtime hstrict path depth hsteps .elseSteps
  | loop input body itemVar indexVar collect output hbody =>
    intro path depth
    rw [runStep, runStep]
    refine relocates_supervise runtime hstrict path depth _ ?_
    have hsteps := hinner hplain (by simp [Step.children]) hbody
    have hrounds := relocates_part runtime hstrict path depth hsteps .steps
    have hitems (scope : Scope) := (input.resolve_ordinary scope).bind Engine.loopItems_ordinary
    refine relocates_reading hstrict path hitems fun _ items => ?_
    exact relocates_bind (relocates_iterate hstrict hrounds itemVar indexVar collect items) fun _ =>
      relocates_pure hstrict _
  | parallel branches output hbranches =>
    intro path depth
    rw [runStep, runStep]
    refine relocates_supervise runtime hstrict path depth _ (relocates_runParallel runtime hstrict path depth ?_ _)
    exact hinner hplain (by simp [Step.children]) hbranches
  | tryCatch attempt recovery always output hattempt hrecovery halways =>
    intro path depth
    obtain rfl : recovery = none := by simpa [Step.recovers] using (Step.everywhere_iff.mp hplain).1
    rw [runStep, runStep]
    refine relocates_supervise runtime hstrict path depth _ (relocates_ensuring hstrict ?_ ?_)
    · have hsteps := hinner hplain (by simp [Step.children]) hattempt
      exact relocates_recovering hstrict path (relocates_part runtime hstrict path depth hsteps .trySteps)
    · have hsteps := hinner hplain (by simp [Step.children]) halways
      exact relocates_partUnlessEmpty runtime hstrict path depth hsteps .finallySteps
  | subPipeline pipeline inputs output hsteps =>
    intro path depth
    obtain ⟨name, description, steps, result, own⟩ := pipeline
    rw [runStep, runStep]
    refine relocates_supervise runtime hstrict path depth _ ?_
    refine relocates_reading hstrict path (Value.resolveFields_ordinary · inputs) fun _ inputs => ?_
    refine relocates_bind (relocates_within ?_ _) fun _ => relocates_pure hstrict _
    rw [Path.append_key, Path.append_key, Nat.add_right_comm]
    have hnested := hinner hplain (by simp [Step.children]) hsteps
    exact (relocates_runSteps runtime hstrict _ (depth + 1) hnested).mono (by simp [Path.key])

end Runtime

end Pipewright
