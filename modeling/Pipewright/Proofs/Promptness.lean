import Pipewright.Proofs.JobComposition
import Pipewright.Proofs.Recovery

/-!
# Where nothing goes on meanwhile

A job that waits while nothing else goes on does in the end what it would do if it did not wait. So steps come to the
same against services as against the abilities that these are in the end: always if the services answer at once, and
else as long as no branches run beside each other. Against services that answer at once no job waits at all, so that
nothing else can go on meanwhile.
-/
namespace Pipewright

namespace Progress

variable {α β : Type}

theorem finish_after (past : List Moment) (p : Progress (Except Failure α × Scope)) :
    (p.after past).finish = { p.finish with log := past ++ p.finish.log } := by
  cases p with
  | ended => rfl
  | waiting => exact congrArg (Ran.mk _ _ _) (List.append_assoc _ _ _)

theorem finish_map (p : Progress (Except Failure α × Scope))
    (f : Except Failure α × Scope → Except Failure β × Scope) :
    (p.map f).finish =
      let ran := p.finish
      let ended := f (ran.outcome, ran.scope)
      ⟨ended.1, ended.2, ran.meter, ran.log⟩ := by
  induction p with
  | ended => rfl
  | waiting meter log resume ih =>
    rw [map, finish, ih meter]
    rfl

theorem finish_andThen (p : Progress (Except Failure α × Scope))
    (next : Except Failure α × Scope → Meter → Progress (Except Failure β × Scope)) :
    (p.andThen next).finish =
      let first := p.finish
      let second := (next (first.outcome, first.scope) first.meter).finish
      { second with log := first.log ++ second.log } := by
  induction p with
  | ended ended meter log => exact finish_after log (next ended meter)
  | waiting meter log resume ih =>
    rw [andThen, finish, ih meter]
    exact congrArg (Ran.mk _ _ _) (List.append_assoc _ _ _).symm

end Progress

namespace Job

variable {α β : Type} {waits : Prop} {x : Job α} {y : Exec α}

theorem ofExec_bind (x : Exec α) (next : α → Exec β) :
    ofExec (x >>= next) = ofExec x >>= fun a => ofExec (next a) := by
  funext scope meter
  cases houtcome : (x scope meter).outcome with
  | error failure => rw [ofExec_bind_of_error houtcome, ofExec, Exec.bind_of_error houtcome]
  | ok a =>
    rw [ofExec_bind_of_ok houtcome, ofExec, Exec.bind_of_ok houtcome]
    rfl

/-- A job comes to what an execution comes to if nothing else goes on meanwhile, and nothing else can go on unless it
may wait. -/
structure Realizes (waits : Prop) (x : Job α) (y : Exec α) : Prop where
  finish : ∀ scope meter, (x scope meter).finish = y scope meter
  prompt : ¬ waits → x = ofExec y

namespace Realizes

theorem ofExec (y : Exec α) : Realizes waits (.ofExec y) y := ⟨fun _ _ => rfl, fun _ => rfl⟩

theorem pure (a : α) : Realizes waits (Pure.pure a : Job α) (Pure.pure a) := ofExec _

theorem of_eq (h : x = .ofExec y) : Realizes waits x y := h ▸ ofExec y

theorem bind (h : Realizes waits x y) {next : α → Job β} {next' : α → Exec β}
    (hnext : ∀ a, Realizes waits (next a) (next' a)) : Realizes waits (x >>= next) (y >>= next') where
  finish scope meter := by
    change ((x scope meter).andThen _).finish = y.andThen next' scope meter
    rw [Progress.finish_andThen, h.finish, Exec.andThen]
    generalize y scope meter = ran
    obtain ⟨outcome, final, after, log⟩ := ran
    cases outcome with
    | error failure => exact congrArg (Ran.mk _ _ _) (List.append_nil log)
    | ok a =>
      have hrest := (hnext a).finish final after
      dsimp only
      rw [hrest]
  prompt hprompt := by
    rw [h.prompt hprompt, funext fun a => (hnext a).prompt hprompt, ofExec_bind]

theorem settle (h : Realizes waits x y) : Realizes waits x.settle y.settle where
  finish scope meter := by
    rw [Exec.settle, ← h.finish]
    exact Progress.finish_map (x scope meter) _
  prompt hprompt := h.prompt hprompt ▸ rfl

theorem within (h : Realizes waits x y) (inner : Scope) : Realizes waits (x.within inner) (y.within inner) where
  finish scope meter := by
    rw [Exec.within, ← h.finish]
    exact Progress.finish_map (x inner meter) _
  prompt hprompt := h.prompt hprompt ▸ rfl

theorem binding (h : Realizes waits x y) (name : String) (v : Value) :
    Realizes waits (x.binding name v) (y.binding name v) where
  finish scope meter := by
    rw [Exec.binding, ← h.finish]
    exact Progress.finish_map (x (scope.set name v) meter) _
  prompt hprompt := h.prompt hprompt ▸ rfl

theorem transactional (h : Realizes waits x y) : Realizes waits x.transactional y.transactional := by
  have hkept (scope : Scope) (meter : Meter) : y.transactional scope meter =
      let ran := y scope meter
      ⟨ran.outcome, if ran.outcome.toBool then ran.scope else scope, ran.meter, ran.log⟩ := by
    dsimp only
    cases houtcome : (y scope meter).outcome with
    | error failure => exact Exec.transactional_of_error houtcome
    | ok a =>
      rw [Exec.transactional_of_ok houtcome]
      exact congrArg (fun outcome => Ran.mk outcome _ _ _) houtcome
  constructor
  · intro scope meter
    rw [hkept, ← h.finish]
    exact Progress.finish_map (x scope meter) _
  · intro hprompt
    funext scope meter
    rw [h.prompt hprompt, Job.ofExec, hkept]
    rfl

end Realizes

end Job

namespace Runtime

end Runtime

namespace Engine

/-- An ability is called once, and answers to the calls before. -/
theorem call_of_some (engine : Engine) (path : Path) {name : String} {ability : Ability}
    (h : engine.abilities.ability? name = some ability) (input : Value) (scope : Scope) (meter : Meter) :
    engine.call path name input scope meter =
      ⟨((ability meter.calls input).mapError (.abilityFailed name)).mapError (Failure.mk path), scope,
        meter.remember ⟨name, input⟩, [⟨.call ⟨name, input⟩, meter.remember ⟨name, input⟩⟩]⟩ := by
  rw [call, h]
  rfl

end Engine

/-- An engine for which calls come to what they come to for a runtime, with the same transforms and limits. -/
structure Engine.Mirrors (waits : Prop) (engine : Engine) (runtime : Runtime) : Prop where
  call : ∀ path name input, (runtime.call path name input).Realizes waits (engine.call path name input)
  registry : runtime.registry = engine.catalog.registry
  limits : runtime.limits = engine.limits

/-- Wherever a step is executed, it comes to the same for a runtime and an engine. -/
def Runtime.Realizes (waits : Prop) (runtime : Runtime) (engine : Engine) (s : Step) : Prop :=
  ∀ path depth, (runtime.runStep s path depth).Realizes waits (engine.runStep s path depth)

namespace Engine.Mirrors

open Job.Realizes (ofExec)

variable {waits : Prop} {engine : Engine} {runtime : Runtime} (h : engine.Mirrors waits runtime)

section

variable (path : Path) (depth : Nat)

include h

/-- Whether a step or a list may start is for the limits to say. -/
theorem admission_eq (s : Step) :
    runtime.admission.startStep s path depth = engine.startStep s path depth ∧
      runtime.admission.checkDepth path depth = engine.checkDepth path depth := by
  obtain ⟨services, registry, limits⟩ := runtime
  obtain rfl : limits = engine.limits := h.limits
  exact ⟨rfl, rfl⟩

theorem supervise (s : Step) {body : LocatedJob} {body' : Located}
    (hbody : (body path depth).Realizes waits (body' path depth)) :
    (runtime.supervise s body path depth).Realizes waits (engine.supervise s body' path depth) := by
  rw [Runtime.supervise, Engine.supervise, (h.admission_eq path depth s).1]
  exact (ofExec _).bind fun _ => hbody.settle.bind fun _ => ofExec _

omit h in
theorem sequence {steps : List Step} (hsteps : ∀ s ∈ steps, runtime.Realizes waits engine s) (i : Nat) (last : Value) :
    (Runtime.sequence path depth i last (runtime.runSteps steps)).Realizes waits
      (Engine.sequence path depth i last (engine.runSteps steps)) := by
  induction steps generalizing i last with
  | nil => exact .pure last
  | cons s rest ih =>
    have hrest := ih fun t ht => hsteps t (List.mem_cons_of_mem _ ht)
    exact (hsteps s List.mem_cons_self _ _).bind fun v => hrest (i + 1) v

theorem runList {steps : List Step} (hsteps : ∀ s ∈ steps, runtime.Realizes waits engine s) :
    (runtime.runList (runtime.runSteps steps) path depth).Realizes waits
      (engine.runList (engine.runSteps steps) path depth) := by
  rw [Runtime.runList, Engine.runList, (h.admission_eq path depth (.parallel [] none)).2]
  exact (ofExec _).bind fun _ => sequence path depth hsteps 0 .null

theorem runUnlessEmpty {steps : List Step} (hsteps : ∀ s ∈ steps, runtime.Realizes waits engine s) :
    (runtime.runUnlessEmpty (runtime.runSteps steps) path depth).Realizes waits
      (engine.runUnlessEmpty (engine.runSteps steps) path depth) := by
  cases steps with
  | nil => exact .pure Value.null
  | cons s rest => exact h.runList path depth hsteps

theorem runAbility (name : String) (input : Value) :
    (runtime.runAbility name input path depth).Realizes waits (engine.runAbility name input path depth) :=
  (ofExec _).bind fun _ => (ofExec _).bind (h.call path name)

theorem runTransform (operation : String) (input : Value) (params : Fields Value) :
    (runtime.runTransform operation input params path depth).Realizes waits
      (engine.runTransform operation input params path depth) := by
  refine (ofExec _).bind fun _ => (ofExec _).bind fun data => (ofExec _).bind fun resolved => ?_
  rw [h.registry]
  exact ofExec _

theorem runConditional (condition : Condition) {whenTrue whenFalse : List Step}
    (htrue : ∀ s ∈ whenTrue, runtime.Realizes waits engine s)
    (hfalse : ∀ s ∈ whenFalse, runtime.Realizes waits engine s) :
    (runtime.runConditional condition (runtime.runSteps whenTrue) (runtime.runSteps whenFalse) path depth).Realizes
      waits (engine.runConditional condition (engine.runSteps whenTrue) (engine.runSteps whenFalse) path depth) := by
  refine (ofExec _).bind fun _ => (ofExec _).bind fun holds => ?_
  cases holds with
  | true => exact h.runUnlessEmpty _ _ htrue
  | false => exact h.runUnlessEmpty _ _ hfalse

omit h in
theorem iterate {body : Job Value} {body' : Exec Value} (hbody : body.Realizes waits body') (itemVar : String)
    (indexVar collect : Option String) (items : List (Value × Value)) :
    (Runtime.iterate body itemVar indexVar collect items).Realizes waits
      (Engine.iterate body' itemVar indexVar collect items) := by
  induction items with
  | nil => exact .pure []
  | cons item rest ih =>
    exact (ofExec _).bind fun scope => (hbody.within _).bind fun (_, _) => ih.bind fun _ => .pure _

theorem runLoop (input : Value) {body : List Step} (hbody : ∀ s ∈ body, runtime.Realizes waits engine s)
    (itemVar : String) (indexVar collect : Option String) :
    (runtime.runLoop input (runtime.runSteps body) itemVar indexVar collect path depth).Realizes waits
      (engine.runLoop input (engine.runSteps body) itemVar indexVar collect path depth) := by
  refine (ofExec _).bind fun _ => (ofExec _).bind fun items => ?_
  exact (iterate (h.runList _ _ hbody) itemVar indexVar collect items).bind fun _ => .pure _

omit h in
/-- Where nothing waits, each branch has ended before the next one starts. -/
theorem branchesFrom {branches : List Step} (hbranches : ∀ s ∈ branches, runtime.Realizes waits engine s)
    (hprompt : ¬ waits) (i : Nat) (scope : Scope) (meter : Meter) :
    ∃ outcomes after log,
      settleBranches path depth i (engine.runSteps branches) scope meter = ⟨.ok outcomes, scope, after, log⟩ ∧
      Runtime.branchesFrom path depth scope i (runtime.runSteps branches) meter = .ended outcomes after log := by
  induction branches generalizing i meter with
  | nil => exact ⟨[], meter, [], rfl, rfl⟩
  | cons s rest ih =>
    let ran := engine.runStep s (path.index i) depth scope meter
    obtain ⟨outcomes, after, log, hexec, hjob⟩ :=
      ih (fun t ht => hbranches t (List.mem_cons_of_mem _ ht)) (i + 1) ran.meter
    refine ⟨ran.outcome.map (fun v => (v, ran.scope)) :: outcomes, after, ran.log ++ log, ?_, ?_⟩
    · have hforked : Exec.fork (engine.runStep s (path.index i) depth) scope meter =
          { ran with outcome := ran.outcome.map fun v => (v, ran.scope), scope := scope } := rfl
      rw [runSteps, settleBranches, Exec.settle_bind, hforked, Exec.bind_of_ok (by rw [hexec]), hexec]
      change Ran.mk _ _ _ (ran.log ++ (log ++ [])) = _
      rw [List.append_nil]
      rfl
    · have hfirst := (hbranches s List.mem_cons_self (path.index i) depth).prompt hprompt
      rw [Runtime.runSteps, Runtime.branchesFrom, hfirst]
      change ((Progress.ended _ _ _).beside (Runtime.branchesFrom path depth scope (i + 1) _ ran.meter)).map _ = _
      rw [hjob]
      rfl

theorem runParallel (outputs : List (Option String)) {branches : List Step}
    (hbranches : ∀ s ∈ branches, runtime.Realizes waits engine s) (hprompt : ¬ waits) :
    (runtime.runParallel outputs (runtime.runSteps branches) path depth).Realizes waits
      (engine.runParallel outputs (engine.runSteps branches) path depth) := by
  rw [Runtime.runParallel, Engine.runParallel, (h.admission_eq _ _ (.parallel [] none)).2]
  refine (ofExec _).bind fun _ => Job.Realizes.bind (.of_eq ?_) fun _ => ofExec _
  funext scope meter
  obtain ⟨outcomes, after, log, hexec, hjob⟩ :=
    branchesFrom (path.key .steps) (depth + 1) hbranches hprompt 0 scope meter
  rw [Runtime.settleBranches, hjob, Job.ofExec, hexec]
  rfl

omit h in
theorem recovering {attempt : Job Value} {attempt' : Exec Value} (hattempt : attempt.Realizes waits attempt')
    {recovery : Option (List Step)} {list : List Step → Job Value} {list' : List Step → Exec Value}
    (hrecovery : ∀ steps, recovery = some steps → (list steps).Realizes waits (list' steps)) :
    (Runtime.recovering path attempt (recovery.map list)).Realizes waits
      (Engine.recovering path attempt' (recovery.map list')) := by
  refine hattempt.transactional.settle.bind fun outcome => ?_
  cases outcome with
  | ok v => exact .pure v
  | error failure =>
    cases recovery with
    | none => exact ofExec _
    | some steps =>
      dsimp only [Option.map_some]
      split
      · exact ofExec _
      · exact (ofExec _).bind fun _ => (hrecovery steps rfl).binding _ _

omit h in
theorem ensuring {x always : Job Value} {x' always' : Exec Value} (hx : x.Realizes waits x')
    (halways : always.Realizes waits always') :
    (Runtime.ensuring x always).Realizes waits (Engine.ensuring x' always') := by
  refine hx.settle.bind fun outcome => ?_
  cases outcome with
  | ok v => exact halways.bind fun _ => .pure v
  | error failure =>
    dsimp only
    split
    · exact ofExec _
    · exact halways.bind fun _ => ofExec _

theorem runTryCatch {attempt always : List Step} {recovery : Option (List Step)}
    (hattempt : ∀ s ∈ attempt, runtime.Realizes waits engine s)
    (hrecovery : ∀ steps, recovery = some steps → ∀ s ∈ steps, runtime.Realizes waits engine s)
    (halways : ∀ s ∈ always, runtime.Realizes waits engine s) :
    (runtime.runTryCatch (runtime.runSteps attempt) (runtime.runOption recovery) (runtime.runSteps always) path
      depth).Realizes waits
      (engine.runTryCatch (engine.runSteps attempt) (engine.runOption recovery) (engine.runSteps always) path
        depth) := by
  refine ensuring ?_ (h.runUnlessEmpty _ _ halways)
  rw [Runtime.runProtected, Engine.runProtected, Runtime.runOption_eq_map, Engine.runOption_eq_map,
    Option.map_map, Option.map_map]
  exact recovering path (h.runList _ _ hattempt) fun steps hsome => h.runList _ _ (hrecovery steps hsome)

theorem runNested {steps : List Step} (hsteps : ∀ s ∈ steps, runtime.Realizes waits engine s) (output : Option String)
    (inputs : Fields Value) :
    (runtime.runNested (runtime.runSteps steps) output inputs path depth).Realizes waits
      (engine.runNested (engine.runSteps steps) output inputs path depth) :=
  (ofExec _).bind fun _ => (ofExec _).bind fun _ => ((h.runList _ _ hsteps).within _).bind fun (_, _) => .pure _

end

include h

/-- A step comes to the same for both, unless branches of it may wait beside each other. -/
theorem runStep (s : Step) (hplain : waits → s.everywhere (fun t => t.kind ≠ .parallel)) :
    runtime.Realizes waits engine s := by
  -- What is asked of a step is asked of the steps in its lists.
  have hinner {s : Step} (hplain : waits → s.everywhere (fun t => t.kind ≠ .parallel)) {steps : List Step}
      (hsteps : steps ∈ s.children.map Prod.snd)
      (ih : ∀ t ∈ steps, (waits → t.everywhere (fun t => t.kind ≠ .parallel)) → runtime.Realizes waits engine t) :
      ∀ t ∈ steps, runtime.Realizes waits engine t :=
    fun t ht => ih t ht fun hwaits => Step.everywhere_of_mem (hplain hwaits) hsteps t ht
  induction s using Step.induction with
  | ability name input output => exact fun path depth => h.supervise path depth _ (h.runAbility path depth name input)
  | transform operation input params output =>
    exact fun path depth => h.supervise path depth _ (h.runTransform path depth operation input params)
  | conditional condition whenTrue whenFalse output htrue hfalse =>
    refine fun path depth => h.supervise path depth _ (h.runConditional path depth condition ?_ ?_)
    · exact hinner hplain (by simp [Step.children]) htrue
    · exact hinner hplain (by simp [Step.children]) hfalse
  | loop input body itemVar indexVar collect output hbody =>
    refine fun path depth => h.supervise path depth _ (h.runLoop path depth input ?_ itemVar indexVar collect)
    exact hinner hplain (by simp [Step.children]) hbody
  | parallel branches output hbranches =>
    have hprompt (hwaits : waits) : False := by simpa [Step.kind] using (Step.everywhere_iff.mp (hplain hwaits)).1
    refine fun path depth => h.supervise path depth _ (h.runParallel path depth _ ?_ hprompt)
    exact hinner hplain (by simp [Step.children]) hbranches
  | tryCatch attempt recovery always output hattempt hrecovery halways =>
    refine fun path depth => h.supervise path depth _ (h.runTryCatch path depth ?_ ?_ ?_)
    · exact hinner hplain (by simp [Step.children]) hattempt
    · rintro steps rfl
      exact hinner hplain (by simp [Step.children]) (hrecovery steps rfl)
    · exact hinner hplain (by simp [Step.children]) halways
  | subPipeline pipeline inputs output hsteps =>
    obtain ⟨name, description, steps, result, limits⟩ := pipeline
    refine fun path depth => h.supervise path depth _ (h.runNested path depth ?_ result inputs)
    exact hinner hplain (by simp [Step.children]) hsteps

/-- A list of steps comes to the same for both. -/
theorem runSteps {steps : List Step} (hplain : waits → ∀ s ∈ steps, s.everywhere (fun t => t.kind ≠ .parallel))
    (path : Path) (depth : Nat) :
    (runtime.runList (runtime.runSteps steps) path depth).Realizes waits
      (engine.runList (engine.runSteps steps) path depth) :=
  h.runList path depth fun s hs => h.runStep s fun hwaits => hplain hwaits s hs

variable {pipeline : Pipeline} (hplain : waits → pipeline.everywhere (fun t => t.kind ≠ .parallel)) (context : Value)
  (clock : Clock)

include hplain

theorem runTop : runtime.runTop pipeline context clock = engine.runTop pipeline context clock :=
  (h.runSteps (fun hwaits => PipelineOf.everywhere_iff.mp (hplain hwaits)) Path.top 0).finish _ _

theorem runPipeline : runtime.runPipeline pipeline context clock = engine.runPipeline pipeline context clock := by
  rw [Runtime.runPipeline, h.runTop hplain, Engine.runPipeline]

end Engine.Mirrors

namespace Engine

variable (engine : Engine)

/-- An engine is its runtime: abilities are services that keep nobody waiting. -/
theorem mirrors_runtime : engine.Mirrors False engine.runtime where
  call path name input := by
    refine .of_eq ?_
    have hservice : engine.runtime.services.service? name = (engine.abilities.ability? name).map Ability.service := rfl
    rw [Runtime.call, call, hservice]
    cases engine.abilities.ability? name with
    | none => rfl
    | some ability =>
      simp only [Option.map_some, Job.ofExec_bind]
      rfl
  registry := rfl
  limits := rfl

theorem runStep_realized (s : Step) (path : Path) (depth : Nat) :
    (engine.runtime.runStep s path depth).Realizes False (engine.runStep s path depth) :=
  engine.mirrors_runtime.runStep s nofun path depth

theorem runSteps_realized (steps : List Step) (path : Path) (depth : Nat) :
    (engine.runtime.runList (engine.runtime.runSteps steps) path depth).Realizes False
      (engine.runList (engine.runSteps steps) path depth) :=
  engine.mirrors_runtime.runSteps nofun path depth

variable (pipeline : Pipeline) (context : Value) (clock : Clock)

theorem runTop_runtime : engine.runtime.runTop pipeline context clock = engine.runTop pipeline context clock :=
  engine.mirrors_runtime.runTop nofun context clock

/-- An engine runs a pipeline as its runtime does. -/
theorem runPipeline_runtime :
    engine.runtime.runPipeline pipeline context clock = engine.runPipeline pipeline context clock :=
  engine.mirrors_runtime.runPipeline nofun context clock

/-- An engine executes a definition as its runtime does. -/
theorem execute_runtime (definition : Value) :
    engine.runtime.execute definition context clock = engine.execute definition context clock := by
  simp only [Runtime.execute, runPipeline_runtime]
  rfl

end Engine

end Pipewright
