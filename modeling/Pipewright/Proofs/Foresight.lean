import Pipewright.Proofs.FailedRuns
import Pipewright.Proofs.FoundNames
import Pipewright.Proofs.ProblemTexts

/-!
# Warnings and runs

The checks of an engine warn of what its runs can ask for in vain. A step that asks for a transform that is not there
has been warned of at its place, and a conditional step that asks for such an operator at its condition or below it. So
without any warning only the transform that filters can still ask for such an operator, which it is given as a
parameter.
-/
namespace Pipewright

theorem Fields.not_mem_keys_of_get? {α : Type} {name : String} {fields : Fields α} (h : get? name fields = none) :
    name ∉ keys fields := by
  induction fields with
  | nil => exact nofun
  | cons head rest ih =>
    rw [get?] at h
    split at h
    · cases h
    next hne =>
      intro hname
      rcases List.mem_cons.mp hname with heq | hrest
      · exact hne heq.symm
      · exact ih h hrest

theorem Transform.eq_name_of_get? {transforms : Fields Transform} (h : transforms ⊆ table) {operation : String}
    {t : Transform} (hget : Fields.get? operation transforms = some t) : operation = t.name := by
  have hall : ∀ entry ∈ table, entry.1 = entry.2.name := by decide +kernel
  exact hall _ (h (Fields.mem_of_get? hget))

theorem Rules.text_mem_warnings {rules : Rules} {definition : Value} {finding : Finding}
    (h : finding ∈ rules.findings definition) (hwarning : finding.problem.isWarning = true) :
    finding.text ∈ rules.warnings definition :=
  List.mem_map_of_mem (List.mem_filter.mpr ⟨h, hwarning⟩)

theorem PlacedList.HasStep.ne_nil {outer : PlacedList} {s : Step} {path : Path} {depth : Nat}
    (h : outer.HasStep s path depth) : path ≠ [] := by
  obtain ⟨inner, i, -, -, rfl, -⟩ := h
  exact List.append_ne_nil_of_right_ne_nil _ (List.cons_ne_nil _ _)

namespace Engine

variable {engine : Engine} {pipeline : Pipeline} {definition : Value} {log : List Moment} {s : Step} {path : Path}
  {error : RunError} {name : String} {abilities : Abilities} {transforms : Fields Transform} {limits : Limits}

/-- A name that nothing is known by is what the step itself comes to. -/
theorem FailsAt.raises {problem : Problem} (h : engine.FailsAt pipeline.top log s ⟨path, error⟩)
    (hproblem : error.problem? = some problem) :
    ∃ depth scope before, pipeline.top.HasStep s path depth ∧ engine.Raises scope before s error := by
  obtain ⟨depth, scope, meter, hstep, hfails, -⟩ := h
  rcases runStep_own_failure s hfails with ⟨hrefuses, -⟩ | hraises
  · cases hrefuses <;> cases hproblem
  · exact ⟨depth, scope, meter.calls, hstep, hraises.raises⟩

section

variable (hengine : engine = ⟨abilities, .of transforms, limits⟩) (haccepts : engine.rules.accepts definition = true)
  (hdecode : PipelineOf.decode definition = .ok pipeline)

include hengine haccepts hdecode

/-- A transform that is asked for in vain has been warned of at its step. -/
theorem warned_of_unknownTransform (h : engine.FailsAt pipeline.top log s ⟨path, .unknownTransform name⟩) :
    path.text ++ ": " ++ s!"unknown transform '{name}'" ∈ engine.rules.warnings definition := by
  obtain ⟨depth, scope, before, hstep, hraises⟩ := h.raises rfl
  obtain ⟨habsent, input, params, output, rfl⟩ := (hengine ▸ hraises).unknownTransform
  have hknown : name ∉ engine.catalog.names := by
    rw [hengine, Catalog.names_of]
    exact Fields.not_mem_keys_of_get? habsent
  have hchecked := Rules.checkedIn_of_hasStep haccepts hdecode hstep
  have hfound := hchecked.transform_found (Rules.accepts_iff.mp haccepts) rfl hknown
  have hwarned := Rules.text_mem_warnings hfound rfl
  rwa [Finding.text_of_ne_nil hstep.ne_nil] at hwarned

/-- An operator that a condition asks for in vain has been warned of at the condition or below it. -/
theorem warned_of_unknownOperator (hkind : s.kind = .conditional)
    (h : engine.FailsAt pipeline.top log s ⟨path, .unknownOperator name⟩) :
    ∃ below, (path.key .condition ++ below).text ++ ": " ++ s!"unknown operator '{name}'" ∈
      engine.rules.warnings definition := by
  obtain ⟨depth, scope, before, hstep, hraises⟩ := h.raises rfl
  rcases (hengine ▸ hraises).unknownOperator with
    ⟨_, _, _, _, rfl, -⟩ | ⟨condition, _, _, _, rfl, hparse, hcompares⟩
  · cases hkind
  · have hchecked := Rules.checkedIn_of_hasStep haccepts hdecode hstep
    obtain ⟨below, hfound⟩ := hchecked.condition_found (Rules.accepts_iff.mp haccepts) name hcompares hparse
    have hwarned := Rules.text_mem_warnings hfound rfl
    have hplace : path.key .condition ++ below ≠ [] :=
      List.append_ne_nil_of_left_ne_nil (List.append_ne_nil_of_left_ne_nil hstep.ne_nil _) below
    rw [Finding.text_of_ne_nil hplace] at hwarned
    exact ⟨below, hwarned⟩

/-- Without any warning only a transform that filters asks in vain, and only for an operator. -/
theorem filters_of_unwarned (hsilent : engine.rules.warnings definition = [])
    (h : engine.FailsAt pipeline.top log s ⟨path, error⟩) :
    (∀ name, error ≠ .unknownTransform name) ∧ ∀ name, error = .unknownOperator name →
      ∃ operation input params output, s = .transform operation input params output ∧
        Fields.get? operation transforms = some .filter := by
  constructor
  · rintro name rfl
    have hwarned := warned_of_unknownTransform hengine haccepts hdecode h
    rw [hsilent] at hwarned
    cases hwarned
  · rintro name rfl
    obtain ⟨depth, scope, before, -, hraises⟩ := h.raises rfl
    rcases (hengine ▸ hraises).unknownOperator with hfilters | ⟨_, _, _, _, rfl, -⟩
    · exact hfilters
    · obtain ⟨below, hwarned⟩ := warned_of_unknownOperator hengine haccepts hdecode rfl h
      rw [hsilent] at hwarned
      cases hwarned

end

/-- A failure that is told is that of a step, and so is the one that ends a run if it is not a limit. -/
theorem failsAt_of_told {context : Value} {clock : Clock} {text : String}
    (h : .stepFailed path text ∈ (engine.runPipeline pipeline context clock).events) :
    ∃ s error, error.message = text ∧
      engine.FailsAt pipeline.top (engine.runPipeline pipeline context clock).log s ⟨path, error⟩ := by
  rw [events_runPipeline] at h
  have htold : .stepFailed path text ∈ eventsIn (engine.runTop pipeline context clock).log := by simpa using h
  obtain ⟨error, hmessage, s, depth, scope, meter, hstep, hfails, hlog⟩ :=
    (attributed_runTop engine pipeline context clock).told path text htold
  have hin := runTop_log_infix engine pipeline context clock
  exact ⟨s, error, hmessage, depth, scope, meter, hstep, hfails, hlog.trans hin⟩

theorem failsAt_of_failure {context : Value} {clock : Clock} {failure : Failure}
    (h : (engine.runTop pipeline context clock).outcome = .error failure) (hordinary : failure.error.isFatal = false) :
    ∃ s, engine.FailsAt pipeline.top (engine.runPipeline pipeline context clock).log s failure := by
  rcases runTop_failure engine pipeline context clock h with
    ⟨s, depth, scope, meter, hstep, -, -, hfails, hlog⟩ | ⟨s, depth, meter, -, -, hrefuses, -⟩ |
      ⟨steps, depth, meter, -, -, hdeep, -⟩
  · exact ⟨s, depth, scope, meter, hstep, hfails, hlog⟩
  · obtain ⟨_, error⟩ := failure
    cases hrefuses <;> cases hordinary
  · rw [hdeep] at hordinary
    cases hordinary

/-- In every run of an accepted definition, each failure that is told or that ends the run is one that a declared step
runs into. Where a step asks for a transform that is not there, there is a warning of it at that step; where a
conditional step asks for such an operator, there is one at its condition or below it. Without warnings no step asks for
such a transform, and for such an operator only one that filters. -/
theorem execute_foreseen (abilities : Abilities) (transforms : Fields Transform) (limits : Limits) {definition : Value}
    {pipeline : Pipeline} (context : Value) (clock : Clock) :
    let engine : Engine := ⟨abilities, .of transforms, limits⟩
    engine.rules.accepts definition = true → PipelineOf.decode definition = .ok pipeline →
    let report := engine.execute definition context clock
    let warnings := engine.rules.warnings definition
    (∀ path text, .stepFailed path text ∈ report.events →
      ∃ s error, error.message = text ∧ engine.FailsAt pipeline.top report.log s ⟨path, error⟩) ∧
    (∀ failure, (engine.runTop pipeline context clock).outcome = .error failure → failure.error.isFatal = false →
      ∃ s, engine.FailsAt pipeline.top report.log s failure) ∧
    ∀ s path error, engine.FailsAt pipeline.top report.log s ⟨path, error⟩ →
      (∀ name, error = .unknownTransform name →
        path.text ++ ": " ++ s!"unknown transform '{name}'" ∈ warnings) ∧
      (∀ name, error = .unknownOperator name → s.kind = .conditional →
        ∃ below, (path.key .condition ++ below).text ++ ": " ++ s!"unknown operator '{name}'" ∈ warnings) ∧
      (warnings = [] → (∀ name, error ≠ .unknownTransform name) ∧
        ∀ name, error = .unknownOperator name → ∃ operation input params output,
          s = .transform operation input params output ∧ Fields.get? operation transforms = some .filter ∧
          (transforms ⊆ Transform.table → operation = "filter")) := by
  intro engine haccepts hdecode report warnings
  have hreport : report = engine.runPipeline pipeline context clock := by
    change engine.execute definition context clock = _
    rw [execute, Report.ofDefinition_of_decode hdecode, if_pos haccepts]
  rw [hreport]
  refine ⟨fun path text htold => failsAt_of_told htold, fun failure => failsAt_of_failure,
    fun s path error hruns => ⟨?_, ?_, fun hsilent => ?_⟩⟩
  · rintro name rfl
    exact warned_of_unknownTransform rfl haccepts hdecode hruns
  · rintro name rfl hkind
    exact warned_of_unknownOperator rfl haccepts hdecode hkind hruns
  · obtain ⟨htransform, hoperator⟩ := filters_of_unwarned rfl haccepts hdecode hsilent hruns
    refine ⟨htransform, fun name hname => ?_⟩
    obtain ⟨operation, input, params, output, hs, hfilter⟩ := hoperator name hname
    exact ⟨operation, input, params, output, hs, hfilter, fun hbuiltin => Transform.eq_name_of_get? hbuiltin hfilter⟩

/-- An engine without the transform that reverses warns of it, and of the operator of the second condition; which of the
two a run asks for depends on the context. Of the operator that a filter is given it does not warn. -/
theorem execute_foreseen_of_names :
    let transforms : Fields Transform := [("count", .count), ("filter", .filter)]
    let engine : Engine := ⟨.none, .of transforms, .standard⟩
    let ready : Value := .obj [("field", .str "$ready")]
    let alike : Value := .obj [("field", .str "$ready"), ("operator", .str "resembles")]
    let reversal : Value :=
      .obj [("type", .str "transform"), ("operation", .str "reverse"), ("input", .arr [])]
    let selection : Value := .obj [("type", .str "transform"), ("operation", .str "filter"),
      ("input", .arr [.null]), ("params", .obj [("operator", .str "resembles")])]
    let definition : Value := .obj [("steps", .arr [.obj [("type", .str "conditional"),
      ("condition", .obj [("and", .arr [ready, alike])]), ("else", .arr [reversal])]])]
    let silent : Value := .obj [("steps", .arr [selection])]
    let started (flag : Bool) := engine.execute definition (.obj [("ready", if flag then .bool true else .null)])
    (∃ pipeline, PipelineOf.decode definition = .ok pipeline ∧
      (∃ s path, path.text = "steps[0].else[0]" ∧
        engine.FailsAt pipeline.top (started false).log s ⟨path, .unknownTransform "reverse"⟩ ∧
        path.text ++ ": " ++ ("unknown transform '" ++ "reverse" ++ "'") ∈ engine.rules.warnings definition) ∧
      ∃ s path, path.text = "steps[0]" ∧ s.kind = .conditional ∧
        engine.FailsAt pipeline.top (started true).log s ⟨path, .unknownOperator "resembles"⟩ ∧
        ∃ below, (path.key .condition ++ below).text ++ ": " ++ ("unknown operator '" ++ "resembles" ++ "'") ∈
          engine.rules.warnings definition) ∧
    ∃ pipeline, PipelineOf.decode silent = .ok pipeline ∧ engine.rules.warnings silent = [] ∧
      ∃ s path input params output,
        engine.FailsAt pipeline.top (engine.execute silent .null).log s ⟨path, .unknownOperator "resembles"⟩ ∧
        s = .transform "filter" input params output := by
  intro transforms engine ready alike reversal selection definition silent started
  have haccepts : engine.rules.accepts definition = true := by decide +kernel
  have hsilent : engine.rules.accepts silent = true := by decide +kernel
  have hunwarned : engine.rules.warnings silent = [] := by decide +kernel
  let ending (pipeline : Pipeline) (context : Value) : Option (String × Option Problem) :=
    (engine.runTop pipeline context .still).failure?.map fun failure => (failure.path.text, failure.error.problem?)
  let kinds (pipeline : Pipeline) : List (String × StepKind) :=
    pipeline.outline.entries.map fun entry => (entry.path.text, entry.kind)
  have hstops {pipeline : Pipeline} {context : Value} {text : String} {problem : Problem}
      (h : ending pipeline context = some (text, some problem)) :
      ∃ failure, (engine.runTop pipeline context .still).outcome = .error failure ∧ failure.path.text = text ∧
        failure.error.problem? = some problem := by
    obtain ⟨failure, hfailure, heq⟩ := Option.map_eq_some_iff.mp h
    obtain ⟨htext, hproblem⟩ := Prod.mk.inj heq
    exact ⟨failure, Ran.failure?_eq_some.mp hfailure, htext, hproblem⟩
  constructor
  · have hread : (PipelineOf.decode definition).toOption.map (fun pipeline =>
        (ending pipeline (.obj [("ready", .null)]), ending pipeline (.obj [("ready", .bool true)]), kinds pipeline)) =
      some (some ("steps[0].else[0]", some (.unknownTransform "reverse")),
        some ("steps[0]", some (.unknownOperator "resembles")),
        [("steps[0]", .conditional), ("steps[0].else[0]", .transform)]) := by decide +kernel
    obtain ⟨pipeline, hdecode, hruns⟩ := PipelineOf.exists_of_decode hread
    obtain ⟨hfalse, hruns⟩ := Prod.mk.inj hruns
    obtain ⟨htrue, hkinds⟩ := Prod.mk.inj hruns
    refine ⟨pipeline, hdecode, ?_, ?_⟩
    · obtain ⟨⟨path, error⟩, hended, hpath, hproblem⟩ := hstops hfalse
      obtain rfl : error = _ := RunError.eq_unknownTransform hproblem
      obtain ⟨-, hfailure, hforeseen⟩ := execute_foreseen .none transforms .standard
        (.obj [("ready", .null)]) .still haccepts hdecode
      obtain ⟨s, hs⟩ := hfailure _ hended rfl
      exact ⟨s, path, hpath, hs, (hforeseen s path _ hs).1 _ rfl⟩
    · obtain ⟨⟨path, error⟩, hended, hpath, hproblem⟩ := hstops htrue
      obtain rfl : error = _ := RunError.eq_unknownOperator hproblem
      obtain ⟨-, hfailure, hforeseen⟩ := execute_foreseen .none transforms .standard
        (.obj [("ready", .bool true)]) .still haccepts hdecode
      obtain ⟨s, hs⟩ := hfailure _ hended rfl
      have hkind : s.kind = .conditional := by
        obtain ⟨depth, scope, meter, hstep, -, -⟩ := hs
        have hentry := List.mem_map_of_mem (f := fun entry : OutlineEntry Path => (entry.path.text, entry.kind))
          (pipeline.entries_top ▸ hstep.outlineEntry_mem)
        have hlisted : (path.text, s.kind) ∈ kinds pipeline := hentry
        rw [hkinds, show path.text = "steps[0]" from hpath] at hlisted
        simpa using hlisted
      exact ⟨s, path, hpath, hkind, hs, (hforeseen s path _ hs).2.1 _ rfl hkind⟩
  · have hread : (PipelineOf.decode silent).toOption.map (ending · .null) =
      some (some ("steps[0]", some (.unknownOperator "resembles"))) := by decide +kernel
    obtain ⟨pipeline, hdecode, hended⟩ := PipelineOf.exists_of_decode hread
    obtain ⟨⟨path, error⟩, hended, -, hproblem⟩ := hstops hended
    obtain rfl : error = _ := RunError.eq_unknownOperator hproblem
    obtain ⟨-, hfailure, hforeseen⟩ := execute_foreseen .none transforms .standard .null .still hsilent hdecode
    obtain ⟨s, hs⟩ := hfailure _ hended rfl
    have hbuiltin : transforms ⊆ Transform.table := by decide +kernel
    obtain ⟨operation, input, params, output, hfilter, -, hname⟩ := ((hforeseen s path _ hs).2.2 hunwarned).2 _ rfl
    obtain rfl := hname hbuiltin
    exact ⟨pipeline, hdecode, hunwarned, s, path, input, params, output, hs, hfilter⟩

end Engine

end Pipewright
