import Pipewright.Proofs.TwinRuns

/-!
# Variables that are not mentioned

Two runs of a pipeline start in scopes that agree on the names it mentions and may differ in all others. They do the
same and come to the same: whatever one of them writes the other one writes too, and what they leave alone stays as
different as it was.
-/
namespace Pipewright

namespace Engine

open Exec

/-- Wherever a step is executed, it does not tell scopes apart that have come from two others. -/
def Blind (engine : Engine) (start start' : Scope) (s : Step) : Prop :=
  ∀ path depth, (engine.runStep s path depth).Blind start start'

variable (engine : Engine) (path : Path) (depth : Nat) {start start' : Scope}

theorem twin_startStep (s : Step) {akin : Scope → Scope → Prop} :
    Twin akin (engine.startStep s path depth) (engine.startStep s path depth) := by
  intro scope scope' meter meter' hscope hmeter
  have hclock : meter'.clock 0 = meter.clock 0 := by rw [hmeter.clock]
  by_cases htime : engine.limits.timeIsUp (meter.clock 0)
  · rw [startStep_of_late engine path depth s scope htime,
      startStep_of_late engine path depth s scope' (hclock ▸ htime)]
    exact ⟨rfl, hscope, hmeter.tick, rfl⟩
  · have htime : engine.limits.timeIsUp (meter.clock 0) = false := by simpa using htime
    have htime' := hclock ▸ htime
    by_cases hbudget : engine.limits.maxSteps ≤ meter.stats.stepsExecuted
    · rw [startStep_of_spent engine path depth s scope htime hbudget,
        startStep_of_spent engine path depth s scope' htime' (hmeter.steps ▸ hbudget)]
      exact ⟨rfl, hscope, hmeter.tick, rfl⟩
    · have hleft := Nat.lt_of_not_le hbudget
      rw [startStep_of_budget engine path depth s scope htime hleft,
        startStep_of_budget engine path depth s scope' htime' (hmeter.steps ▸ hleft)]
      exact ⟨rfl, hscope, hmeter.tick.record s.kind, rfl⟩

/-- The end of a step writes the same to both scopes. -/
theorem blind_endStep (s : Step) (outcome : Except Failure Value) : (endStep s path outcome).Blind start start' := by
  have law := twin_chains (Scope.Kin start start')
  cases outcome with
  | ok v =>
    refine law.bind ?_ fun _ => law.bind ?_ fun _ => law.bind (twin_emit _) fun _ => law.pure v
    · cases s.output with
      | none => exact law.pure ()
      | some name => exact blind_write name v
    · exact fun _ _ _ _ hscope hmeter => ⟨rfl, hscope, hmeter.observe _ _, rfl⟩
  | error failure =>
    rw [endStep]
    split
    · exact law.bind (twin_emit _) fun _ => twin_ofOutcome _
    · exact twin_ofOutcome _

theorem blind_supervise (s : Step) {body : Located} (h : (body path depth).Blind start start') :
    (engine.supervise s body path depth).Blind start start' :=
  twin_bind (twin_startStep engine path depth s) fun _ => twin_settle_bind h (blind_endStep path s)

/-- An ability answers the same to the same input after the same calls. -/
theorem twin_call (name : String) (input : Value) {akin : Scope → Scope → Prop} :
    Twin akin (engine.call path name input) (engine.call path name input) := by
  intro scope scope' meter meter' hscope hmeter
  cases hability : engine.abilities.ability? name with
  | none =>
    rw [call, hability]
    exact ⟨rfl, hscope, hmeter, rfl⟩
  | some ability =>
    rw [call_of_some engine path hability, call_of_some engine path hability]
    exact ⟨by rw [hmeter.calls], hscope, hmeter.remember _, rfl⟩

theorem blind_runAbility {name : String} {input : Value} (hstart : Scope.AgreeOn input.roots start start') :
    (engine.runAbility name input path depth).Blind start start' := by
  refine twin_scope_bind fun scope scope' hscope => ?_
  rw [Value.resolve_of_agreeOn (hscope.agreeOn hstart)]
  have law := twin_chains (Scope.Kin start start')
  exact law.bind (law.lift (input.resolve_ordinary scope)) fun data => twin_call engine path name data

theorem blind_runTransform {operation : String} {input : Value} {params : Fields Value}
    (hstart : Scope.AgreeOn (input.roots ++ Value.rootsOfFields params) start start') :
    (engine.runTransform operation input params path depth).Blind start start' := by
  refine twin_scope_bind fun scope scope' hscope => ?_
  have hagree := hscope.agreeOn hstart
  rw [Value.resolve_of_agreeOn (hagree.mono (List.subset_append_left _ _)),
    Value.resolveFields_of_agreeOn (hagree.mono (List.subset_append_right _ _))]
  have law := twin_chains (Scope.Kin start start')
  refine law.bind (law.lift (input.resolve_ordinary scope)) fun data => ?_
  refine law.bind (law.lift (Value.resolveFields_ordinary scope params)) fun params => ?_
  exact law.lift (engine.catalog.run_ordinary operation data params)

theorem blind_runSteps {steps : List Step} (h : ∀ s ∈ steps, engine.Blind start start' s) :
    (engine.runList (engine.runSteps steps) path depth).Blind start start' := by
  rw [runSteps_eq_map]
  have law := (twin_chains (Scope.Kin start start')).binds
  refine binds_runList law engine engine path path depth depth id (fun hdeep => ?_) fun _ s hs i =>
    h s hs (path.index i) depth
  rw [runList_of_deep hdeep]
  exact twin_refuse _

theorem blind_runUnlessEmpty {steps : List Step} (h : ∀ s ∈ steps, engine.Blind start start' s) :
    (engine.runUnlessEmpty (engine.runSteps steps) path depth).Blind start start' := by
  have hlist := blind_runSteps engine path depth h
  rw [runSteps_eq_map] at hlist ⊢
  have law := (twin_chains (Scope.Kin start start')).binds
  exact binds_runUnlessEmpty law engine engine path path depth depth hlist

theorem blind_runConditional {condition : Condition} {whenTrue whenFalse : List Step}
    (hstart : Scope.AgreeOn condition.roots start start')
    (htrue : ∀ s ∈ whenTrue, engine.Blind start start' s) (hfalse : ∀ s ∈ whenFalse, engine.Blind start start' s) :
    (engine.runConditional condition (engine.runSteps whenTrue) (engine.runSteps whenFalse) path depth).Blind start
      start' := by
  refine twin_scope_bind fun scope scope' hscope => ?_
  rw [Condition.evaluate_of_agreeOn (hscope.agreeOn hstart)]
  have law := twin_chains (Scope.Kin start start')
  refine law.bind (law.lift (condition.evaluate_ordinary scope)) fun holds => ?_
  cases holds with
  | true => exact blind_runUnlessEmpty engine _ _ htrue
  | false => exact blind_runUnlessEmpty engine _ _ hfalse

theorem resultOf_congr {output : Option String} {scope scope' : Scope}
    (h : Scope.AgreeOn output.toList scope scope') (last : Value) :
    resultOf output last scope' = resultOf output last scope := by
  cases output with
  | none => rfl
  | some name =>
    have hname := h name List.mem_cons_self
    rw [resultOf, resultOf, Scope.getOrNull, Scope.getOrNull, hname]

/-- Every round starts in scopes that are akin, and what is collected of them is the same. -/
theorem blind_iterate {body : Exec Value} (hbody : body.Blind start start') {itemVar : String}
    {indexVar collect : Option String} (hstart : Scope.AgreeOn collect.toList start start')
    (items : List (Value × Value)) :
    (iterate body itemVar indexVar collect items).Blind start start' := by
  have law := twin_chains (Scope.Kin start start')
  induction items with
  | nil => exact law.pure []
  | cons item rest ih =>
    obtain ⟨index, item⟩ := item
    rw [iterate]
    refine twin_scope_bind fun scope scope' hscope => twin_within_bind ?_ hbody fun last final final' hfinal => ?_
    · cases indexVar with
      | none => exact hscope.set itemVar item
      | some name => exact (hscope.set itemVar item).set name index
    · refine law.bind ih fun results => ?_
      rw [resultOf_congr (hfinal.agreeOn hstart)]
      exact law.pure _

theorem blind_runLoop {input : Value} {body : List Step} {itemVar : String} {indexVar collect : Option String}
    (hstart : Scope.AgreeOn (input.roots ++ collect.toList) start start')
    (hbody : ∀ s ∈ body, engine.Blind start start' s) :
    (engine.runLoop input (engine.runSteps body) itemVar indexVar collect path depth).Blind start start' := by
  have law := twin_chains (Scope.Kin start start')
  refine twin_scope_bind fun scope scope' hscope => ?_
  rw [Value.resolve_of_agreeOn (hscope.agreeOn (hstart.mono (List.subset_append_left _ _)))]
  have hitems : Ordinary (input.resolve scope >>= loopItems) := (input.resolve_ordinary scope).bind loopItems_ordinary
  refine law.bind (law.lift hitems) fun items => law.bind ?_ fun results => law.pure _
  exact blind_iterate (blind_runSteps engine _ _ hbody) (hstart.mono (List.subset_append_right _ _)) items

/-- A pipeline inside another one starts from its inputs alone, so it starts from the same. -/
theorem blind_runNested {steps : List Step} {output : Option String} {inputs : Fields Value}
    (hstart : Scope.AgreeOn (Value.rootsOfFields inputs) start start')
    (hsteps : ∀ start, ∀ s ∈ steps, engine.Blind start start s) :
    (engine.runNested (engine.runSteps steps) output inputs path depth).Blind start start' := by
  have law := twin_chains (Scope.Kin start start')
  refine twin_scope_bind fun scope scope' hscope => ?_
  rw [Value.resolveFields_of_agreeOn (hscope.agreeOn hstart)]
  refine law.bind (law.lift (Value.resolveFields_ordinary scope inputs)) fun fields => ?_
  refine twin_within_bind (.refl (.ofFields fields) (.ofFields fields)) (blind_runSteps engine _ _ (hsteps _))
    fun last final final' hfinal => ?_
  have hresult : resultOf output last final' = resultOf output last final :=
    resultOf_congr (fun name _ => hfinal.get?_eq name) last
  dsimp only
  rw [hresult]
  exact law.pure _

theorem blind_recovering {attempt : Exec Value} {recovery : Option (Exec Value)}
    (hattempt : attempt.Blind start start')
    (hrecovery : ∀ x, recovery = some x → x.Blind start start') :
    (recovering path attempt recovery).Blind start start' := by
  have law := twin_chains (Scope.Kin start start')
  refine twin_settle_bind (twin_transactional hattempt) fun outcome => ?_
  split
  · exact law.pure _
  · split
    · exact twin_ofOutcome _
    next recover =>
      split
      · exact twin_ofOutcome _
      · exact law.bind (twin_emit _) fun _ => blind_binding (hrecovery recover rfl) _ _

theorem twin_ensuring {akin : Scope → Scope → Prop} {x always : Exec Value} (hx : Twin akin x x)
    (halways : Twin akin always always) : Twin akin (ensuring x always) (ensuring x always) := by
  have law := twin_chains akin
  refine twin_settle_bind hx fun outcome => ?_
  split
  · split
    · exact twin_ofOutcome _
    · exact law.bind halways fun _ => twin_ofOutcome _
  · exact law.bind halways fun _ => law.pure _

/-- The branches of a list do the same and come to the same, each in its turn. -/
theorem twin_attempts {branches : List Step} (h : ∀ s ∈ branches, engine.Blind start start' s) {scope scope' : Scope}
    (hscope : Scope.Kin start start' scope scope') (i : Nat) {meter meter' : Meter} (hmeter : meter.Twin meter') :
    let rans := engine.attempts path depth scope i meter branches
    let rans' := engine.attempts path depth scope' i meter' branches
    rans'.map Ran.outcome = rans.map Ran.outcome ∧ (meterAfter meter rans).Twin (meterAfter meter' rans') ∧
      actsIn (rans'.map Ran.log).flatten = actsIn (rans.map Ran.log).flatten := by
  induction branches generalizing i meter meter' with
  | nil => exact ⟨rfl, hmeter, rfl⟩
  | cons s rest ih =>
    intro rans rans'
    have hran := h s List.mem_cons_self (path.index i) depth scope scope' meter meter' hscope hmeter
    obtain ⟨houtcomes, hmeters, hacts⟩ := ih (fun t ht => h t (List.mem_cons_of_mem _ ht)) (i + 1) hran.meter
    refine ⟨List.cons_eq_cons.mpr ⟨hran.outcome, houtcomes⟩, hmeters, ?_⟩
    change actsIn ((engine.runStep s (path.index i) depth scope' meter').log ++ _) =
      actsIn ((engine.runStep s (path.index i) depth scope meter).log ++ _)
    rw [actsIn_append, actsIn_append, hran.acts, hacts]

section

variable {rans rans' : List (Ran Value)} (h : rans'.map Ran.outcome = rans.map Ran.outcome)

include h

theorem firstFailure?_congr : firstFailure? rans' = firstFailure? rans := by
  suffices hfailures : rans'.filterMap Ran.failure? = rans.filterMap Ran.failure? by
    rw [firstFailure?, firstFailure?, hfailures]
  induction rans generalizing rans' with
  | nil => rw [List.map_eq_nil_iff.mp h]
  | cons ran rest ih =>
    obtain ⟨ran', rest', rfl, houtcome, hrest⟩ := List.map_eq_cons_iff.mp h
    have hfailure : ran'.failure? = ran.failure? := by rw [Ran.failure?, Ran.failure?, houtcome]
    rw [List.filterMap_cons, List.filterMap_cons, hfailure, ih hrest]

theorem produced_congr (branches : List Step) : produced branches rans' = produced branches rans := by
  induction branches generalizing rans rans' with
  | nil => rfl
  | cons branch rest ih =>
    cases rans with
    | nil => rw [List.map_eq_nil_iff.mp h]
    | cons ran rans =>
      obtain ⟨ran', rans', rfl, houtcome, hrest⟩ := List.map_eq_cons_iff.mp h
      rw [produced_cons, produced_cons, ih hrest, produced?, produced?, houtcome]

theorem joinBranches_outcome_congr (outputs : List (Option String)) (scope scope' : Scope) (meter meter' : Meter) :
    (joinBranches outputs (rans'.map handedOver) scope' meter').outcome =
      (joinBranches outputs (rans.map handedOver) scope meter).outcome := by
  obtain ⟨hok, herror⟩ := joinBranches_outcome rans outputs scope meter
  obtain ⟨hok', herror'⟩ := joinBranches_outcome rans' outputs scope' meter'
  rw [h] at hok'
  rw [firstFailure?_congr h] at herror'
  cases houtcome : (joinBranches outputs (rans.map handedOver) scope meter).outcome with
  | ok v => exact (hok' v).mpr ((hok v).mp houtcome)
  | error failure => exact (herror' failure).mpr ((herror failure).mp houtcome)

end

theorem blind_runParallel {branches : List Step} (h : ∀ s ∈ branches, engine.Blind start start' s) :
    (engine.runParallel (branches.map Step.output) (engine.runSteps branches) path depth).Blind start start' := by
  by_cases hdeep : engine.limits.maxDepth < depth + 1
  · rw [runParallel_of_deep hdeep]
    exact twin_refuse _
  · intro scope scope' meter meter' hscope hmeter
    rw [runParallel_eq engine branches path scope meter (Nat.le_of_not_lt hdeep),
      runParallel_eq engine branches path scope' meter' (Nat.le_of_not_lt hdeep)]
    obtain ⟨houtcomes, hmeters, hacts⟩ := twin_attempts engine (path.key .steps) (depth + 1) h hscope 0 hmeter
    have hwrites (scope : Scope) (meter : Meter) := joinBranches_writes (branches.map Step.output)
      ((engine.attempts (path.key .steps) (depth + 1) scope 0 meter branches).map handedOver) scope
    refine ⟨joinBranches_outcome_congr houtcomes _ _ _ _ _, ?_, ?_, ?_⟩
    · simp only [hwrites, mergeOutputs_attempts, produced_congr houtcomes]
      exact hscope.setAll _
    · simp only [hwrites]
      exact hmeters
    · simp only [hwrites, List.append_nil]
      exact hacts

theorem agreeOn_mentions {s : Step} {steps : List Step} (hs : s ∈ steps)
    (h : Scope.AgreeOn (Step.mentionsAll steps) start start') : Scope.AgreeOn s.mentions start start' :=
  h.mono (Step.mentions_subset_mentionsAll hs)

/-- Whatever a step executes, it does not tell scopes apart that agree on the names that it mentions. -/
theorem blind_of_agreeOn (s : Step) (hstart : Scope.AgreeOn s.mentions start start') :
    engine.Blind start start' s := by
  induction s using Step.induction generalizing start start' with
  | ability name input output =>
    exact fun path depth => blind_supervise engine path depth _ (blind_runAbility engine path depth hstart)
  | transform operation input params output =>
    exact fun path depth => blind_supervise engine path depth _ (blind_runTransform engine path depth hstart)
  | conditional condition whenTrue whenFalse output htrue hfalse =>
    have hlists := hstart.mono (List.subset_append_right _ _)
    refine fun path depth => blind_supervise engine path depth _ ?_
    refine blind_runConditional engine path depth (hstart.mono (List.subset_append_left _ _)) ?_ ?_
    · exact fun s hs => htrue s hs (agreeOn_mentions hs (hlists.mono (List.subset_append_left _ _)))
    · exact fun s hs => hfalse s hs (agreeOn_mentions hs (hlists.mono (List.subset_append_right _ _)))
  | loop input body itemVar indexVar collect output hbody =>
    rw [Step.mentions, ← List.append_assoc] at hstart
    refine fun path depth => blind_supervise engine path depth _ ?_
    refine blind_runLoop engine path depth (hstart.mono (List.subset_append_left _ _)) fun s hs => hbody s hs ?_
    exact agreeOn_mentions hs (hstart.mono (List.subset_append_right _ _))
  | parallel branches output hbranches =>
    refine fun path depth => blind_supervise engine path depth _ (blind_runParallel engine path depth ?_)
    exact fun s hs => hbranches s hs (agreeOn_mentions hs hstart)
  | tryCatch attempt recovery always output hattempt hrecovery halways =>
    rw [Step.mentions] at hstart
    have hothers := hstart.mono (List.subset_append_right _ _)
    refine fun path depth => blind_supervise engine path depth _ (twin_ensuring (blind_recovering path ?_ ?_) ?_)
    · refine blind_runSteps engine _ _ fun s hs => hattempt s hs (agreeOn_mentions hs ?_)
      exact hstart.mono (List.subset_append_left _ _)
    · refine forall_eq_some_runOption fun steps hsome => blind_runSteps engine _ _ fun s hs => ?_
      subst hsome
      exact hrecovery steps rfl s hs (agreeOn_mentions hs (hothers.mono (List.subset_append_left _ _)))
    · refine blind_runUnlessEmpty engine _ _ fun s hs => halways s hs (agreeOn_mentions hs ?_)
      exact hothers.mono (List.subset_append_right _ _)
  | subPipeline pipeline inputs output hsteps =>
    obtain ⟨name, description, steps, result, limits⟩ := pipeline
    rw [Step.mentions] at hstart
    intro path depth
    rw [runStep]
    refine blind_supervise engine path depth _ ?_
    -- Inside, both executions start from the inputs alone and so in one scope: they agree on all names there.
    exact blind_runNested engine path depth hstart fun start s hs => hsteps s hs fun _ _ => rfl

section

variable (pipeline : Pipeline) (context : Value) (clock : Clock)

theorem runPipeline_context : (engine.runPipeline pipeline context clock).context =
    (engine.runTop pipeline context clock).scope.toValue := by
  rw [runPipeline, Report.ofRan]
  cases (engine.runTop pipeline context clock).outcome <;> rfl

theorem runPipeline_result : (engine.runPipeline pipeline context clock).result =
    match (engine.runTop pipeline context clock).outcome with
    | .ok last => resultOf pipeline.output last (engine.runTop pipeline context clock).scope
    | .error _ => .null := by
  rw [runPipeline, Report.ofRan]
  cases (engine.runTop pipeline context clock).outcome <;> rfl

end

theorem twin_runTop (pipeline : Pipeline) {context context' : Value} (clock : Clock)
    (h : Scope.AgreeOn (Step.mentionsAll pipeline.steps) (Scope.ofValue context) (Scope.ofValue context')) :
    (engine.runTop pipeline context clock).Twin (Scope.Kin (Scope.ofValue context) (Scope.ofValue context'))
      (engine.runTop pipeline context' clock) := by
  have hsteps := blind_runSteps engine Path.top 0 fun s hs => blind_of_agreeOn engine s (agreeOn_mentions hs h)
  have hfresh : (Meter.fresh clock).Twin (Meter.fresh clock) := ⟨rfl, rfl, rfl, rfl⟩
  exact hsteps _ _ _ _ (.refl _ _) (hfresh.observe _ _)

/-- Names that a pipeline does not mention make no difference to its runs. Two contexts that agree on the names that
it mentions lead to the same outcome, by the same events and calls and with the same steps counted; and each name ends
with the same value in both, or as it was in each of them at the start. -/
theorem runPipeline_unmentioned (pipeline : Pipeline) (context context' : Value) (clock : Clock)
    (h : Scope.AgreeOn pipeline.mentions (Scope.ofValue context) (Scope.ofValue context')) :
    let report := engine.runPipeline pipeline context clock
    let report' := engine.runPipeline pipeline context' clock
    (report'.succeeded = report.succeeded ∧ report'.result = report.result ∧ report'.error = report.error) ∧
    (report'.events = report.events ∧ report'.calls = report.calls ∧
      report'.stats.stepsExecuted = report.stats.stepsExecuted ∧
      report'.stats.stepsByType = report.stats.stepsByType) ∧
    ∀ name,
      (Scope.ofValue report'.context).get? name = (Scope.ofValue report.context).get? name ∨
      (Scope.ofValue report.context).get? name = (Scope.ofValue context).get? name ∧
        (Scope.ofValue report'.context).get? name = (Scope.ofValue context').get? name := by
  intro report report'
  have htwin := twin_runTop engine pipeline clock (h.mono (List.subset_append_left _ _))
  have hfailure := Ran.failure?_congr fun failure => iff_of_eq (congrArg (· = .error failure) htwin.outcome)
  have herror : report'.error = report.error := by
    rw [runPipeline_error, runPipeline_error, hfailure]
  have hsucceeded : report'.succeeded = report.succeeded := congrArg Option.isNone herror
  have hresult : report'.result = report.result := by
    rw [runPipeline_result, runPipeline_result, htwin.outcome]
    cases (engine.runTop pipeline context clock).outcome with
    | error failure => rfl
    | ok last => exact resultOf_congr (htwin.scope.agreeOn (h.mono (List.subset_append_right _ _))) last
  have hstats : report.stats = _ := runPipeline_stats engine pipeline context clock
  have hstats' : report'.stats = _ := runPipeline_stats engine pipeline context' clock
  have hsteps : report'.stats.stepsExecuted = report.stats.stepsExecuted := by
    rw [hstats, hstats', htwin.meter.steps]
  have hlast : (.pipelineCompleted report'.succeeded report'.stats.stepsExecuted : Event Path) =
      .pipelineCompleted report.succeeded report.stats.stepsExecuted := by rw [hsucceeded, hsteps]
  have hevents : report'.events = report.events := by
    rw [events_runPipeline, events_runPipeline, eventsIn_congr htwin.acts]
    exact congrArg (fun last => _ :: (_ ++ [last])) hlast
  have hcalls : report'.calls = report.calls := by
    rw [runPipeline_calls, runPipeline_calls, htwin.meter.calls]
  refine ⟨⟨hsucceeded, hresult, herror⟩, ⟨hevents, hcalls, hsteps, ?_⟩, fun name => ?_⟩
  · rw [hstats, hstats', htwin.meter.types]
  · rw [runPipeline_context, runPipeline_context, Scope.get?_ofValue_toValue, Scope.get?_ofValue_toValue]
    exact htwin.scope name

/-- A failed call is recovered from, with two different variables in the way of the error and of the output. -/
theorem runPipeline_unmentioned_of_error :
    let pipeline : Pipeline :=
      ⟨none, none, [.tryCatch [.ability "missing" (.str "$seen") none] (some []) [] (some "x")], none, none⟩
    let context : Value := .obj [("error", .str "mine"), ("seen", .nat 1)]
    let context' : Value := .obj [("error", .str "yours"), ("seen", .nat 1), ("x", .nat 2)]
    let run (context : Value) := runPipeline ⟨.none, .builtin, .standard⟩ pipeline context
    pipeline.mentions = ["seen"] ∧ (run context').events = (run context).events ∧
      (run context').result = (run context).result := by
  intro pipeline context context' run
  have hmentions : pipeline.mentions = ["seen"] := by decide +kernel
  have hagree : Scope.AgreeOn pipeline.mentions (Scope.ofValue context) (Scope.ofValue context') := by
    rw [hmentions]
    intro name hname
    obtain rfl := List.mem_singleton.mp hname
    rfl
  have hsame := runPipeline_unmentioned ⟨.none, .builtin, .standard⟩ pipeline context context' .still hagree
  exact ⟨hmentions, hsame.2.1.1, hsame.1.2.1⟩

end Engine

end Pipewright
