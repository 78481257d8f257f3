import Pipewright.CommandLine.Outcome
import Pipewright.Proofs.Soundness

/-!
# Accepted definitions

A definition without errors can be read as a pipeline, with one exception that the checks do not look for: a loop
may name the variable of its item, or of its index, in both spellings at once. Such a loop makes the whole
definition unreadable wherever it stands; nothing else does.
-/
namespace Pipewright

/-! ### The steps of a definition -/

namespace Value

/-- The value of an entry, if this is an object that has it. -/
def member? (v : Value) (name : String) : Option Value := v.fields?.bind (Fields.get? name)

/-- The items of the list that an entry is. -/
def listAt (v : Value) (name : String) : List Value :=
  match v.member? name with
  | some (.arr items) => items
  | _ => []

/-- The kind of step that an object has as its type. -/
def stepKind? (v : Value) : Option StepKind := ((v.member? "type").bind str?).bind StepKind.parse?

/-- The steps that stand in the lists of a step, or in the pipeline that it nests. -/
def innerSteps (s : Value) : List Value :=
  match s.stepKind? with
  | some .conditional => s.listAt "then" ++ s.listAt "else"
  | some .loop | some .parallel => s.listAt "steps"
  | some .tryCatch => s.listAt "try" ++ s.listAt "catch" ++ s.listAt "finally"
  | some .subPipeline => ((s.member? "pipeline").getD .null).listAt "steps"
  | _ => []

/-- A step is another one, or stands in it however deep. -/
inductive Within : Value → Value → Prop where
  | self (s : Value) : Within s s
  | inner {s inside t : Value} : inside ∈ s.innerSteps → Within inside t → Within s t

/-- A loop that names the variable of its item, or of its index, in both spellings. -/
def NamesTwice (s : Value) : Prop :=
  s.stepKind? = some .loop ∧
    ((s.member? "item_var").isSome ∧ (s.member? "itemVar").isSome ∨
      (s.member? "index_var").isSome ∧ (s.member? "indexVar").isSome)

/-- Somewhere in the definition of a pipeline a loop names a variable twice. -/
def Ambiguous (definition : Value) : Prop :=
  ∃ s ∈ definition.listAt "steps", ∃ t, Within s t ∧ t.NamesTwice

/-- No loop names a variable twice, neither the step itself nor one inside it. -/
def Clear (s : Value) : Prop := ∀ t, Within s t → ¬ t.NamesTwice

theorem not_ambiguous_iff {definition : Value} :
    ¬ definition.Ambiguous ↔ ∀ s ∈ definition.listAt "steps", s.Clear := by
  simp [Ambiguous, Clear]

theorem clear_iff {s : Value} : s.Clear ↔ ¬ s.NamesTwice ∧ ∀ inside ∈ s.innerSteps, inside.Clear := by
  constructor
  · intro h
    exact ⟨h s (.self s), fun inside hinside t ht => h t (.inner hinside ht)⟩
  · rintro ⟨hself, hinner⟩ t (_ | ⟨hinside, ht⟩)
    · exact hself
    · exact hinner _ hinside t ht

end Value

/-! ### Reading a step -/

/-- What is known of a value from the checks that found nothing in it. -/
structure Agrees (v : Value) : Prop where
  step : ∀ rules path depth inner, Sound (v.inspection.step rules path depth) →
    (Readable (v.reading.step inner) ↔ v.Clear)
  steps : ∀ items, v = .arr items → ∀ rules path depth inner, Sound (v.inspection.steps rules path depth) →
    (Readable (v.reading.steps inner) ↔ ∀ s ∈ items, s.Clear)
  pipeline : ∀ rules path depth inner, Sound (v.inspection.pipeline rules path depth) →
    (Readable (v.reading.pipeline inner) ↔ ∀ s ∈ v.listAt "steps", s.Clear)

section

variable {fields : Fields Value} {rules : Rules} {path : Path} {depth : Nat} {key : Key}

theorem listAt_obj (name : String) (items : List Value) (h : Fields.get? name fields = some (.arr items)) :
    (Value.obj fields).listAt name = items := by
  simp [Value.listAt, Value.member?, Value.fields?, h]

/-- A mandatory list can be read if its steps can. -/
theorem readable_required_steps (hfields : ∀ entry ∈ fields, Agrees entry.2)
    (h : Sound (Inspection.stepList rules (inspected fields) path depth key true)) :
    Readable (Reading.required (readings fields) key.name >>= fun r => r.steps true) ↔
      ∀ s ∈ (Value.obj fields).listAt key.name, s.Clear := by
  rcases sound_stepList h with ⟨items, hget, hsound⟩ | ⟨hfalse, -⟩
  · rw [required_readings hget, listAt_obj key.name items hget]
    exact (hfields _ (Fields.mem_of_get? hget)).steps items rfl _ _ _ true hsound
  · cases hfalse

/-- A list that may be left out can be read if its steps can. -/
theorem readable_optionalSteps (hfields : ∀ entry ∈ fields, Agrees entry.2)
    (h : Sound (Inspection.stepList rules (inspected fields) path depth key false)) :
    Readable (Reading.optionalSteps (readings fields) key.name) ↔
      ∀ s ∈ (Value.obj fields).listAt key.name, s.Clear := by
  rw [Reading.optionalSteps, present_readings]
  rcases sound_stepList h with ⟨items, hget, hsound⟩ | ⟨-, hnone | hnull⟩
  · rw [hget, listAt_obj key.name items hget]
    exact (hfields _ (Fields.mem_of_get? hget)).steps items rfl _ _ _ true hsound
  · simp [Value.listAt, Value.member?, Value.fields?, hnone]
  · simp [Value.listAt, Value.member?, Value.fields?, hnull, Value.isNull]

theorem readable_requiredText {name s : String} (h : Fields.get? name fields = some (.str s)) :
    Readable (Reading.requiredText (readings fields) name) := by
  rw [Reading.requiredText, required_readings h]
  exact ⟨s, rfl⟩

theorem readable_required {name : String} {v : Value} (h : Fields.get? name fields = some v) :
    Readable (Reading.required (readings fields) name) := by
  rw [required_readings h]
  exact readable_ok _

end

namespace Reading

variable {record : Record}

theorem readable_ability : Readable (stepOf record .ability) ↔
    Readable (requiredText record "ability") ∧ Readable (optionalText record "output") :=
  readable_bind_and fun _ => readable_bind_pure

theorem readable_transform : Readable (stepOf record .transform) ↔
    Readable (required record "input") ∧ Readable (requiredText record "operation") ∧
      Readable (optionalText record "output") ∧ Readable (optionalFields record "params") :=
  readable_bind_and fun _ => readable_bind_and fun _ => readable_bind_and fun _ => readable_bind_pure

theorem readable_conditional : Readable (stepOf record .conditional) ↔
    Readable (required record "condition" >>= Reading.condition) ∧ Readable (optionalSteps record "else") ∧
      Readable (optionalText record "output") ∧ Readable (optionalSteps record "then") :=
  readable_bind_bind_and fun _ => readable_bind_and fun _ => readable_bind_and fun _ => readable_bind_pure

theorem readable_loop : Readable (stepOf record .loop) ↔
    Readable (optionalText record "collect") ∧ Readable (aliased record "index_var" "indexVar" >>= textOf) ∧
      Readable (required record "input") ∧ Readable (aliased record "item_var" "itemVar" >>= textOf) ∧
      Readable (optionalText record "output") ∧ Readable (required record "steps" >>= fun r => r.steps true) :=
  readable_bind_and fun _ => readable_bind_bind_and fun _ => readable_bind_and fun _ =>
    readable_bind_bind_and fun _ => readable_bind_and fun _ => readable_bind_bind_pure

theorem readable_parallel : Readable (stepOf record .parallel) ↔
    Readable (optionalText record "output") ∧
      Readable (required record "steps" >>= fun r => if r.value.isNull then .ok [] else r.steps true) := by
  refine readable_bind_and fun _ => ?_
  rw [readable_bind, readable_bind]
  refine exists_congr fun r => and_congr_right fun _ => ?_
  cases r.value.isNull <;> exact readable_bind_pure

theorem readable_tryCatch : Readable (stepOf record .tryCatch) ↔
    Readable (optionalSteps record "catch") ∧ Readable (optionalSteps record "finally") ∧
      Readable (optionalText record "output") ∧ Readable (required record "try" >>= fun r => r.steps true) := by
  have hrest (recovery : Option (List Step)) :
      Readable (optionalSteps record "finally" >>= fun always => optionalText record "output" >>= fun output =>
        required record "try" >>= fun r => r.steps true >>= fun attempt =>
          pure (Step.tryCatch attempt recovery always output)) ↔
      Readable (optionalSteps record "finally") ∧ Readable (optionalText record "output") ∧
        Readable (required record "try" >>= fun r => r.steps true) :=
    readable_bind_and fun _ => readable_bind_and fun _ => readable_bind_bind_pure
  rw [optionalSteps.eq_1 record "catch", stepOf]
  cases present? record "catch" with
  | none => exact (hrest none).trans (and_iff_right (readable_ok _)).symm
  | some r => exact (readable_bind_and hrest).trans (and_congr_left' (readable_map some (r.steps true)))

theorem readable_subPipeline : Readable (stepOf record .subPipeline) ↔
    Readable (optionalFields record "inputs") ∧ Readable (optionalText record "output") ∧
      Readable (required record "pipeline" >>= fun r => r.pipeline true) :=
  readable_bind_and fun _ => readable_bind_and fun _ => readable_bind_bind_pure

end Reading

/-! ### What the checks of a step promise -/

section

variable {fields : Fields Value} {rules : Rules} {path : Path} {depth : Nat}

theorem exists_text {name : String} {absent : List Finding} {wrong : Value → List Finding}
    {found : String → List Finding} (habsent : ¬ Sound absent) (hwrong : ∀ v, ¬ Sound (wrong v))
    (h : Sound (match Inspection.valueAt (inspected fields) name with
      | none => absent
      | some (.str s) => found s
      | some v => wrong v)) : ∃ s, Fields.get? name fields = some (.str s) := by
  rw [valueAt_inspected] at h
  cases hget : Fields.get? name fields with
  | none =>
    rw [hget] at h
    exact absurd h habsent
  | some v =>
    rw [hget] at h
    cases v with
    | str s => exact ⟨s, rfl⟩
    | _ => exact absurd h (hwrong _)

/-- A step in which nothing is found has a type, and is checked and read as a step of this type. -/
theorem exists_kind_of_sound (h : Sound (Inspection.stepOf (inspected fields) rules path depth)) :
    ∃ kind, (Value.obj fields).stepKind? = some kind ∧
      Sound (Inspection.optionalText (inspected fields) path "output") ∧
      Sound (Inspection.ofKind rules (inspected fields) path depth kind) ∧
      ∀ inner, Reading.stepOfEntries (readings fields) inner = Reading.stepOf (readings fields) kind := by
  rw [Inspection.stepOf] at h
  obtain ⟨name, hname⟩ := exists_text (by simp [Problem.isWarning]) (by simp [Problem.isWarning]) h
  simp only [valueAt_inspected, hname] at h
  cases hparse : StepKind.parse? name with
  | none => simp [hparse, Problem.isWarning] at h
  | some kind =>
    simp only [hparse, sound_append] at h
    refine ⟨kind, ?_, h.1, h.2, fun inner => ?_⟩
    · simp [Value.stepKind?, Value.member?, Value.fields?, hname, Value.str?, hparse]
    · have htag : Reading.stepKind inner (Value.str name) = .ok kind := by simp [Reading.stepKind, hparse]
      rw [Reading.stepOfEntries, required_readings hname]
      change (Reading.stepKind inner (Value.str name) >>= _) = _
      rw [htag]
      rfl

/-- A step in which nothing is found can be read unless a loop in it, or the step itself, names a variable twice. -/
theorem readable_stepOf (hfields : ∀ entry ∈ fields, Agrees entry.2) {kind : StepKind}
    (hkind : (Value.obj fields).stepKind? = some kind)
    (houtput : Sound (Inspection.optionalText (inspected fields) path "output"))
    (hbody : Sound (Inspection.ofKind rules (inspected fields) path depth kind)) :
    Readable (Reading.stepOf (readings fields) kind) ↔ (Value.obj fields).Clear := by
  have hreadable := readable_optionalText houtput
  have hself (hne : kind ≠ .loop) : ¬ (Value.obj fields).NamesTwice :=
    fun ⟨hloop, _⟩ => hne (Option.some.inj (hkind.symm.trans hloop))
  rw [Value.clear_iff, Value.innerSteps, hkind]
  cases kind with
  | ability =>
    obtain ⟨name, hname⟩ := exists_text (by simp [Problem.isWarning]) (by simp [Problem.isWarning]) hbody
    simp [Reading.readable_ability, readable_requiredText hname, hreadable, hself]
  | transform =>
    rw [Inspection.ofKind, sound_append, sound_append] at hbody
    obtain ⟨⟨hoperation, hinput⟩, hparams⟩ := hbody
    obtain ⟨name, hname⟩ := exists_text (by simp [Problem.isWarning]) (by simp [Problem.isWarning]) hoperation
    obtain ⟨input, hinput⟩ := exists_of_mandatoryField hinput
    simp [Reading.readable_transform, readable_required hinput, readable_requiredText hname, hreadable,
      readable_optionalFields hparams, hself]
  | conditional =>
    rw [Inspection.ofKind, sound_append, sound_append] at hbody
    obtain ⟨⟨hcondition, hthen⟩, helse⟩ := hbody
    have hcondition : Readable (Reading.required (readings fields) "condition" >>= Reading.condition) := by
      rw [Fields.get?_map] at hcondition
      cases hget : Fields.get? "condition" fields with
      | none => simp [hget, Problem.isWarning] at hcondition
      | some v =>
        rw [hget] at hcondition
        rw [required_readings hget]
        exact (readable_condition v _ hcondition).1
    have hthen := readable_optionalSteps hfields hthen
    have helse := readable_optionalSteps hfields helse
    simp only [Key.name] at hthen helse
    simp only [Reading.readable_conditional, hcondition, hthen, helse, hreadable, List.forall_mem_append, true_and]
    rw [and_iff_right (hself (by decide)), and_comm]
  | loop =>
    rw [Inspection.ofKind, sound_append, sound_append] at hbody
    obtain ⟨⟨hinput, hnames⟩, hsteps⟩ := hbody
    obtain ⟨input, hinput⟩ := exists_of_mandatoryField hinput
    have hname := sound_flatMap.mp hnames
    have hitem := readable_aliased (hname "item_var" (by simp)) (hname "itemVar" (by simp))
    have hindex := readable_aliased (hname "index_var" (by simp)) (hname "indexVar" (by simp))
    have hcollect := readable_optionalText (hname "collect" (by simp))
    have hsteps := readable_required_steps hfields hsteps
    simp only [Key.name] at hsteps
    -- Each spelling is checked on its own, which leaves open whether both are there.
    have htwice : (Value.obj fields).NamesTwice ↔
        (Fields.contains "item_var" fields ∧ Fields.contains "itemVar" fields) ∨
          (Fields.contains "index_var" fields ∧ Fields.contains "indexVar" fields) := by
      rw [Value.NamesTwice, hkind, and_iff_right rfl]
      rfl
    simp only [Reading.readable_loop, hcollect, hindex, readable_required hinput, hitem, hreadable, hsteps, htwice,
      not_or, true_and, and_assoc]
    exact and_left_comm
  | parallel =>
    rw [Inspection.ofKind, sound_append, sound_append] at hbody
    obtain ⟨⟨-, hsteps⟩, hthere⟩ := hbody
    obtain ⟨v, hv⟩ := exists_of_mandatoryField hthere
    have hbranches := readable_optionalSteps hfields hsteps
    rw [Reading.optionalSteps, present_readings] at hbranches
    simp only [Key.name, hv, Option.bind_some] at hbranches
    rw [Reading.readable_parallel, required_readings hv, and_iff_right hreadable, and_iff_right (hself (by decide)),
      ← hbranches]
    change Readable (if v.reading.value.isNull then _ else _) ↔ _
    rw [Value.reading_value]
    cases v.isNull <;> simp
  | tryCatch =>
    rw [Inspection.ofKind, sound_append, sound_append] at hbody
    obtain ⟨⟨htry, hcatch⟩, hfinally⟩ := hbody
    have htry := readable_required_steps hfields htry
    have hcatch := readable_optionalSteps hfields hcatch
    have hfinally := readable_optionalSteps hfields hfinally
    simp only [Key.name] at htry hcatch hfinally
    simp only [Reading.readable_tryCatch, htry, hcatch, hfinally, hreadable, List.forall_mem_append, true_and]
    rw [and_iff_right (hself (by decide)), and_assoc, ← and_assoc, and_comm]
  | subPipeline =>
    rw [Inspection.ofKind, sound_append] at hbody
    obtain ⟨hpipeline, hinputs⟩ := hbody
    rw [Fields.get?_map] at hpipeline
    cases hget : Fields.get? "pipeline" fields with
    | none => simp [hget, Problem.isWarning] at hpipeline
    | some v =>
      rw [hget] at hpipeline
      have hentry : (Value.obj fields).member? "pipeline" = some v := hget
      have hsteps := (hfields _ (Fields.mem_of_get? hget)).pipeline _ _ _ true hpipeline
      rw [Reading.readable_subPipeline, required_readings hget, hentry, Option.getD_some,
        and_iff_right (readable_optionalFields hinputs), and_iff_right hreadable, and_iff_right (hself (by decide)),
        ← hsteps]
      rfl

theorem readable_limits_of_sound
    (h : Sound (((Fields.get? "limits" (inspected fields)).map fun found =>
      Inspection.limits path found.value).getD [])) :
    (Fields.get? "limits" fields).all (fun v => !v.isNull) ∧
      ∀ v, Fields.get? "limits" fields = some v → Readable (Limits.decode v) := by
  rw [Fields.get?_map] at h
  cases hget : Fields.get? "limits" fields with
  | none => exact ⟨rfl, fun v hv => by cases hv⟩
  | some v =>
    rw [hget] at h
    simp only [Option.map_some, Option.getD_some, Value.inspection_value] at h
    refine ⟨?_, fun w hw => Option.some.inj hw ▸ readable_limits h⟩
    cases v with
    | null => simp [Inspection.limits, Problem.isWarning] at h
    | _ => rfl

theorem readable_pipelineOf (hfields : ∀ entry ∈ fields, Agrees entry.2) (inner : Bool)
    (h : Sound (Inspection.pipelineOf (inspected fields) rules path depth)) :
    Readable (Reading.pipelineOf (readings fields) inner) ↔ ∀ s ∈ (Value.obj fields).listAt "steps", s.Clear := by
  rw [Inspection.pipelineOf, sound_append, sound_append] at h
  obtain ⟨⟨htexts, hlimits⟩, hsteps⟩ := h
  have htext (name : String) (hname : name ∈ ["name", "description", "output"]) :=
    readable_optionalText (sound_flatMap.mp htexts name hname)
  have hlist : Readable (Reading.required (readings fields) "steps" >>= fun r => r.steps inner) ↔
      ∀ s ∈ (Value.obj fields).listAt "steps", s.Clear := by
    rw [Fields.get?_map] at hsteps
    cases hget : Fields.get? "steps" fields with
    | none => simp [hget, Problem.isWarning] at hsteps
    | some v =>
      simp only [hget, Option.map_some, Value.inspection_value] at hsteps
      rw [required_readings hget]
      cases v with
      | arr items =>
        rw [listAt_obj "steps" items hget]
        cases items with
        | nil => simp [Problem.isWarning] at hsteps
        | cons first rest => exact (hfields _ (Fields.mem_of_get? hget)).steps _ rfl _ _ _ inner hsteps
      | _ => simp [Problem.isWarning] at hsteps
  have hrest (description : Option String) (limits : Option Limits) :
      Readable (Reading.optionalText (readings fields) "name" >>= fun name =>
        Reading.optionalText (readings fields) "output" >>= fun output =>
          Reading.required (readings fields) "steps" >>= fun r => r.steps inner >>= fun steps =>
            pure (PipelineOf.mk name description steps output limits)) ↔
      ∀ s ∈ (Value.obj fields).listAt "steps", s.Clear := by
    rw [← hlist, readable_bind_and fun _ => readable_bind_and fun _ => readable_bind_bind_pure,
      and_iff_right (htext "name" (by simp)), and_iff_right (htext "output" (by simp))]
  obtain ⟨hnull, hlimits⟩ := readable_limits_of_sound hlimits
  obtain ⟨description, hdescription⟩ := htext "description" (by simp)
  rw [Reading.pipelineOf, hdescription, present_readings]
  cases hget : Fields.get? "limits" fields with
  | none => exact hrest description none
  | some v =>
    rw [hget] at hnull
    obtain ⟨limits, hdecode⟩ := hlimits v hget
    have hv : v.isNull = false := by simpa using hnull
    simp only [Option.bind_some, hv, Bool.false_eq_true, if_false, Value.reading_value, hdecode]
    exact hrest description (some limits)

end

/-! ### Whole definitions -/

/-- The checks of a value and its readings agree. -/
theorem agrees (v : Value) : Agrees v := by
  induction v using Value.induction with
  | null | bool | num | str =>
    constructor
    · intro rules path depth inner h
      simp [Value.inspection, Value.fold, Inspection.leaf, Problem.isWarning] at h
    · intro items hitems
      cases hitems
    · intro rules path depth inner h
      simp [Value.inspection, Value.fold, Inspection.leaf, Problem.isWarning] at h
  | arr items ih =>
    constructor
    · intro rules path depth inner h
      simp [Value.inspection_arr, Inspection.ofItems, Problem.isWarning] at h
    · intro _ heq rules path depth inner h
      obtain rfl := Value.arr.inj heq
      have hitems : ∀ item ∈ items, Readable (item.reading.step inner) ↔ item.Clear := by
        intro item hitem
        rw [Value.inspection_arr] at h
        -- A list that nests too deep is not sound, so its items are checked, each at its own place.
        change Sound (if rules.maxNesting < depth then _ else _) at h
        split at h
        · simp [Problem.isWarning] at h
        · obtain ⟨place, hplace⟩ := sound_each h _ (List.mem_map_of_mem hitem)
          exact (ih item hitem).step rules place depth inner hplace
      rw [Value.reading_arr]
      change Readable ((items.map Value.reading).mapM fun r => r.step inner) ↔ _
      rw [readable_mapM, List.forall_mem_map]
      exact forall₂_congr hitems
    · intro rules path depth inner h
      simp [Value.inspection_arr, Inspection.ofItems, Problem.isWarning] at h
  | obj fields ih =>
    constructor
    · intro rules path depth inner h
      rw [Value.inspection_obj] at h
      rw [Value.reading_obj]
      change Sound (Inspection.stepOf (inspected fields) rules path depth) at h
      change Readable (Reading.stepOfEntries (readings fields) inner) ↔ _
      obtain ⟨kind, hkind, houtput, hbody, hread⟩ := exists_kind_of_sound h
      rw [hread]
      exact readable_stepOf ih hkind houtput hbody
    · intro items hitems
      cases hitems
    · intro rules path depth inner h
      rw [Value.inspection_obj] at h
      rw [Value.reading_obj]
      exact readable_pipelineOf ih inner h

theorem Rules.readable_of_accepts {rules : Rules} {definition : Value} (h : rules.accepts definition = true) :
    Readable (PipelineOf.decode definition) ↔ ¬ definition.Ambiguous := by
  rw [Value.not_ambiguous_iff]
  exact (agrees definition).pipeline rules [] 0 false (accepts_iff.mp h)

/-- Where the limits and the steps of a pipeline are read from. -/
theorem Reading.parts_of_pipelineOf {record : Record} {inner : Bool} {pipeline : Pipeline}
    (h : pipelineOf record inner = .ok pipeline) :
    (match present? record "limits" with
      | some r => (Limits.decode r.value).map some
      | none => .ok none) = .ok pipeline.limits ∧
    ∃ r, required record "steps" = .ok r ∧ r.steps inner = .ok pipeline.steps := by
  have hrest {description : Option String} {limits : Option Limits}
      (h : (optionalText record "name" >>= fun name => optionalText record "output" >>= fun output =>
        required record "steps" >>= fun r => r.steps inner >>= fun steps =>
          pure (PipelineOf.mk name description steps output limits)) = Except.ok pipeline) :
      pipeline.limits = limits ∧ ∃ r, required record "steps" = .ok r ∧ r.steps inner = .ok pipeline.steps := by
    obtain ⟨name, -, h⟩ := exists_ok_of_bind h
    obtain ⟨output, -, h⟩ := exists_ok_of_bind h
    obtain ⟨r, hrequired, h⟩ := exists_ok_of_bind h
    obtain ⟨steps, hsteps, h⟩ := exists_ok_of_bind h
    cases h
    exact ⟨rfl, r, hrequired, hsteps⟩
  rw [pipelineOf] at h
  obtain ⟨description, -, h⟩ := exists_ok_of_bind h
  cases hpresent : present? record "limits" with
  | none =>
    rw [hpresent] at h
    obtain ⟨hlimits, hsteps⟩ := hrest h
    exact ⟨congrArg Except.ok hlimits.symm, hsteps⟩
  | some r =>
    rw [hpresent] at h
    obtain ⟨limits, hread, h⟩ := exists_ok_of_bind h
    obtain ⟨hlimits, hsteps⟩ := hrest h
    exact ⟨hlimits ▸ hread, hsteps⟩

/-- The limits that commands take from an accepted definition are those of its pipeline. -/
theorem limitsOf_eq {rules : Rules} {definition : Value} {pipeline : Pipeline}
    (haccepts : rules.accepts definition = true) (h : PipelineOf.decode definition = .ok pipeline) :
    limitsOf definition = .ok pipeline.limits := by
  have hsound := Rules.accepts_iff.mp haccepts
  rw [Rules.findings] at hsound
  cases definition with
  | obj fields =>
    rw [Value.inspection_obj] at hsound
    change Sound (Inspection.pipelineOf (inspected fields) rules [] 0) at hsound
    rw [Inspection.pipelineOf, sound_append, sound_append] at hsound
    obtain ⟨hnull, -⟩ := readable_limits_of_sound hsound.1.2
    rw [PipelineOf.decode, Value.reading_obj] at h
    have hlimits := (Reading.parts_of_pipelineOf h).1
    rw [present_readings] at hlimits
    rw [limitsOf, Value.child?]
    cases hget : Fields.get? "limits" fields with
    | none => simpa [hget] using hlimits
    | some v =>
      have hv : v.isNull = false := by simpa [hget] using hnull
      simp only [hget, Option.bind_some, hv, Bool.false_eq_true, if_false, Value.reading_value] at hlimits
      exact congrArg (Except.mapError fun _ => CommandError.limits) hlimits
  | _ => simp [Value.inspection, Value.fold, Inspection.leaf, Inspection.ofItems, Problem.isWarning] at hsound

/-- What the checks, the plan and the runs of a definition agree on: the pipeline that it defines. -/
structure Value.Defines (definition : Value) (pipeline : Pipeline) : Prop where
  decodes : PipelineOf.decode definition = .ok pipeline
  /-- A runtime refuses the definition for what its checks find, or runs the pipeline. -/
  executes : ∀ (runtime : Runtime) (context : Value) (clock : Clock), runtime.execute definition context clock =
    if runtime.rules.accepts definition then runtime.runPipeline pipeline context clock
    else .refused (.rejected (runtime.rules.errors definition)) context
  /-- No runtime reports that the definition is no pipeline. -/
  defined : ∀ (runtime : Runtime) (context : Value) (clock : Clock) (e : DecodeError),
    (runtime.execute definition context clock).error ≠ some (e.toRunError.info none)
  /-- A file that the command for checks accepts has an outline. -/
  plans : ∀ (files : Files) (options : ViewOptions), files.definition options.file = .ok definition →
    Rules.standard.accepts definition = true →
    Command.perform files (.validate options) = .ok (.checked options.file definition) ∧
      (Outcome.checked options.file definition).succeeded = true ∧
      Command.perform files (.plan options) = .ok (.planned options.file pipeline.outline)
  /-- A file that the command for checks accepts is run, under its own limits. -/
  runs : ∀ (files : Files) (options : RunOptions) (context : Fields Value) (abilities : Abilities),
    files.definition options.file = .ok definition → Rules.standard.accepts definition = true →
    files.context options = .ok context → files.abilities options = .ok abilities →
    Command.perform files (.run options) =
      .ok (.ran (Runtime.runPipeline ⟨abilities.services, Catalog.builtin.registry, options.limits pipeline.limits⟩
        pipeline (.obj context)))

/-- A definition that some checks accept and that can be read is the same pipeline to all that read it. -/
theorem Rules.defines_of_decode {rules : Rules} {definition : Value} {pipeline : Pipeline}
    (haccepts : rules.accepts definition = true) (hdecode : PipelineOf.decode definition = .ok pipeline) :
    definition.Defines pipeline := by
  have hexecute (runtime : Runtime) (context : Value) (clock : Clock) :
      runtime.execute definition context clock =
        if runtime.rules.accepts definition then runtime.runPipeline pipeline context clock
        else .refused (.rejected (runtime.rules.errors definition)) context :=
    Report.ofDefinition_of_decode hdecode context fun pipeline => runtime.runPipeline pipeline context clock
  refine ⟨hdecode, hexecute, fun runtime context clock e => ?_, fun files options hfile hstandard => ?_,
    fun files options context abilities hfile hstandard hcontext habilities => ?_⟩
  · rw [hexecute]
    split
    · intro herror
      exact Report.kind_ne_of_ofRan herror rfl
    · intro herror
      have hcode : "validation_failed" = "invalid_definition" :=
        congrArg ErrorInfo.code (Option.some.inj herror)
      simp at hcode
  · refine ⟨?_, hstandard, ?_⟩
    · simp only [Command.perform, hfile]
      rfl
    · have hempty : (Rules.standard.errors definition).isEmpty = true := hstandard
      simp only [Command.perform, Command.performPlan, hfile]
      change (if (Rules.standard.errors definition).isEmpty then _ else _) = _
      rw [if_pos hempty, hdecode]
      rfl
  · have hlimits := limitsOf_eq haccepts hdecode
    have hrun := hexecute ⟨abilities.services, Catalog.builtin.registry, options.limits pipeline.limits⟩ (.obj context)
      .still
    rw [Runtime.rules, ← Catalog.names, ← Rules.standard, if_pos hstandard] at hrun
    rw [Command.perform, Command.performRun, hfile, hcontext, habilities]
    change limitsOf definition >>= _ = _
    rw [hlimits]
    exact congrArg (fun report => Except.ok (Outcome.ran report)) hrun

/-- An accepted definition cannot be read exactly if a loop somewhere in it names a variable in both spellings; in
every other case the checks, the plan and the runs agree on it. -/
theorem Rules.accepted_decodes_iff (rules : Rules) (definition : Value) (h : rules.accepts definition = true) :
    ((∃ e, PipelineOf.decode definition = .error e) ↔ definition.Ambiguous) ∧
    (¬ definition.Ambiguous → ∃ pipeline, definition.Defines pipeline) := by
  have hreadable := readable_of_accepts h
  constructor
  · rw [← not_readable_iff, hreadable, Classical.not_not]
  · intro hclear
    obtain ⟨pipeline, hdecode⟩ := hreadable.mpr hclear
    exact ⟨pipeline, defines_of_decode h hdecode⟩

/-- A loop in a conditional step that names its item once is no obstacle; one in the branch of a parallel step of a
nested pipeline that names its index twice makes the whole definition unreadable, though it is accepted. -/
theorem Rules.accepted_decodes_iff_of_loops :
    let loop (names : Fields Value) : Value :=
      .obj ([("type", .str "loop"), ("input", .str "$rows"), ("steps", .arr [
        .obj [("type", .str "ability"), ("ability", .str "log")]])] ++ names)
    let once : Value := .obj [("steps", .arr [.obj [("type", .str "conditional"),
      ("condition", .obj [("field", .str "$ready")]), ("else", .arr [loop [("itemVar", .str "row")]])]])]
    let twice : Value := .obj [("steps", .arr [.obj [("type", .str "sub_pipeline"),
      ("pipeline", .obj [("steps", .arr [.obj [("type", .str "parallel"),
        ("steps", .arr [loop [("index_var", .str "i"), ("indexVar", .str "i")]])]])])]])]
    (Rules.standard.accepts once = true ∧ ∃ pipeline, once.Defines pipeline) ∧
    (Rules.standard.accepts twice = true ∧ ∃ e, PipelineOf.decode twice = .error e) := by
  intro loop once twice
  have honce : Rules.standard.accepts once = true := by decide +kernel
  have htwice : Rules.standard.accepts twice = true := by decide +kernel
  refine ⟨⟨honce, (accepted_decodes_iff .standard once honce).2 fun hambiguous => ?_⟩, htwice,
    (accepted_decodes_iff .standard twice htwice).1.mpr ?_⟩
  · obtain ⟨e, herror⟩ := (accepted_decodes_iff .standard once honce).1.mpr hambiguous
    have hok : (PipelineOf.decode once).isOk = true := by decide +kernel
    rw [herror] at hok
    cases hok
  · refine ⟨_, List.mem_cons_self, _, .inner List.mem_cons_self (.inner List.mem_cons_self (.self _)), rfl, .inr ?_⟩
    exact ⟨rfl, rfl⟩

end Pipewright
