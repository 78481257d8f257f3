import Pipewright.Proofs.AcceptedDefinitions
import Pipewright.Proofs.DepthReach

/-!
# The ceiling on nesting and the limit of depth

The checks of a definition count the lists that are written down in it, and a run counts those that it enters. A list
that is left out is not entered either, with one exception: a parallel step may have null for its branches, and
enters an empty list then. So a definition within the ceiling goes one level beyond it at most, and only if such a step
stands in a list at the ceiling itself.
-/
namespace Pipewright

namespace Value

/-- The steps in the lists that stand so many levels below a step. -/
def stepsBelow : Nat → Value → List Value
  | 0, s => [s]
  | n + 1, s => s.innerSteps.flatMap (stepsBelow n)

/-- Whether a step is a parallel one that has null for its branches. -/
def isBranchless (s : Value) : Bool := s.stepKind? == some .parallel && (s.member? "steps").any isNull

/-- Whether a parallel step with null for its branches stands in a list at a depth of a definition. -/
def isBranchlessAt (definition : Value) (depth : Nat) : Bool :=
  (definition.listAt "steps").any fun s => (s.stepsBelow depth).any isBranchless

end Value

/-- A step at a depth goes beyond a ceiling by one level at most, and only if its definition has a parallel step with
null for its branches there. -/
structure Fits (ceiling depth : Nat) (v : Value) (s : Step) : Prop where
  within : depth + s.reach ≤ ceiling + 1
  beyond : ceiling < depth + s.reach → ∃ n, depth + n = ceiling ∧ ∃ t ∈ v.stepsBelow n, t.isBranchless

/-- A list at a depth is within a ceiling, and its steps fit under it. -/
structure ListFits (ceiling depth : Nat) (items : List Value) (steps : List Step) : Prop where
  within : depth ≤ ceiling
  steps : ∀ t ∈ steps, ∃ item ∈ items, Fits ceiling depth item t

theorem ListFits.mono {ceiling depth : Nat} {items more : List Value} {steps : List Step}
    (h : ListFits ceiling depth items steps) (hsub : items ⊆ more) : ListFits ceiling depth more steps := by
  refine ⟨h.within, fun t ht => ?_⟩
  obtain ⟨item, hitem, hfits⟩ := h.steps t ht
  exact ⟨item, hsub hitem, hfits⟩

/-- A step fits under a ceiling if the lists fit that a run of it may enter. -/
theorem fits_of_lists {ceiling depth : Nat} {v : Value} {s : Step} (hdepth : depth ≤ ceiling)
    (h : ∀ list ∈ s.children, s.mayEnter list →
      ListFits ceiling (depth + 1) v.innerSteps list.2 ∨ list.2 = [] ∧ v.isBranchless) : Fits ceiling depth v s := by
  constructor
  · suffices hreach : s.reach ≤ ceiling + 1 - depth by omega
    refine Step.reach_le_iff.mpr fun list hlist henter => ⟨by omega, fun t ht => ?_⟩
    rcases h list hlist henter with hfits | ⟨hnil, -⟩
    · obtain ⟨item, -, hitem⟩ := hfits.steps t ht
      have hwithin := hitem.within
      omega
    · rw [hnil] at ht
      cases ht
  · intro hbeyond
    by_cases hthere : ∃ n, depth + n = ceiling ∧ ∃ t ∈ v.stepsBelow n, t.isBranchless
    · exact hthere
    · -- Without such a step no list goes beyond the ceiling, neither by itself nor by a step in it.
      have hreach : s.reach ≤ ceiling - depth := by
        refine Step.reach_le_iff.mpr fun list hlist henter => ?_
        rcases h list hlist henter with hfits | ⟨hnil, hbranchless⟩
        · have hroom := hfits.within
          refine ⟨by omega, fun t ht => ?_⟩
          obtain ⟨item, hitem, hinner⟩ := hfits.steps t ht
          by_cases hdeep : ceiling < depth + 1 + t.reach
          · obtain ⟨n, hn, u, hu, hbranchless⟩ := hinner.beyond hdeep
            exact absurd ⟨n + 1, by omega, u, List.mem_flatMap.mpr ⟨item, hitem, hu⟩, hbranchless⟩ hthere
          · omega
        · have hne : depth ≠ ceiling := fun heq => hthere ⟨0, heq, v, List.mem_singleton_self v, hbranchless⟩
          rw [hnil]
          exact ⟨by omega, nofun⟩
      omega

/-! ### Where the lists of a step are read from -/

namespace Reading

variable {record : Record} {s : Step}

theorem children_of_ability (h : stepOf record .ability = .ok s) : s.children = [] := by
  obtain ⟨_, -, h⟩ := exists_ok_of_bind h
  obtain ⟨_, -, h⟩ := exists_ok_of_bind h
  cases h
  rfl

theorem children_of_transform (h : stepOf record .transform = .ok s) : s.children = [] := by
  obtain ⟨_, -, h⟩ := exists_ok_of_bind h
  obtain ⟨_, -, h⟩ := exists_ok_of_bind h
  obtain ⟨_, -, h⟩ := exists_ok_of_bind h
  obtain ⟨_, -, h⟩ := exists_ok_of_bind h
  cases h
  rfl

theorem exists_of_conditional (h : stepOf record .conditional = .ok s) :
    ∃ condition whenTrue whenFalse output, s = .conditional condition whenTrue whenFalse output ∧
      optionalSteps record "then" = .ok whenTrue ∧ optionalSteps record "else" = .ok whenFalse := by
  obtain ⟨_, -, h⟩ := exists_ok_of_bind h
  obtain ⟨condition, -, h⟩ := exists_ok_of_bind h
  obtain ⟨whenFalse, hfalse, h⟩ := exists_ok_of_bind h
  obtain ⟨output, -, h⟩ := exists_ok_of_bind h
  obtain ⟨whenTrue, htrue, h⟩ := exists_ok_of_bind h
  exact ⟨condition, whenTrue, whenFalse, output, (Except.ok.inj h).symm, htrue, hfalse⟩

theorem exists_of_loop (h : stepOf record .loop = .ok s) :
    ∃ input body itemVar indexVar collect output, s = .loop input body itemVar indexVar collect output ∧
      ∃ r, required record "steps" = .ok r ∧ r.steps true = .ok body := by
  obtain ⟨collect, -, h⟩ := exists_ok_of_bind h
  obtain ⟨_, -, h⟩ := exists_ok_of_bind h
  obtain ⟨indexVar, -, h⟩ := exists_ok_of_bind h
  obtain ⟨input, -, h⟩ := exists_ok_of_bind h
  obtain ⟨_, -, h⟩ := exists_ok_of_bind h
  obtain ⟨itemVar, -, h⟩ := exists_ok_of_bind h
  obtain ⟨output, -, h⟩ := exists_ok_of_bind h
  obtain ⟨r, hrequired, h⟩ := exists_ok_of_bind h
  obtain ⟨body, hread, h⟩ := exists_ok_of_bind h
  exact ⟨_, body, _, indexVar, collect, output, (Except.ok.inj h).symm, r, hrequired, hread⟩

theorem exists_of_parallel (h : stepOf record .parallel = .ok s) :
    ∃ branches output, s = .parallel branches output ∧
      ∃ r, required record "steps" = .ok r ∧
        (r.value.isNull ∧ branches = [] ∨ r.value.isNull = false ∧ r.steps true = .ok branches) := by
  obtain ⟨output, -, h⟩ := exists_ok_of_bind h
  obtain ⟨r, hrequired, h⟩ := exists_ok_of_bind h
  dsimp only at h
  split at h
  next hnull =>
    exact ⟨[], output, (Except.ok.inj h).symm, r, hrequired, .inl ⟨hnull, rfl⟩⟩
  next hthere =>
    obtain ⟨branches, hread, h⟩ := exists_ok_of_bind h
    refine ⟨branches, output, (Except.ok.inj h).symm, r, hrequired, .inr ⟨?_, hread⟩⟩
    exact Bool.eq_false_iff.mpr hthere

theorem exists_of_tryCatch (h : stepOf record .tryCatch = .ok s) :
    ∃ attempt recovery always output, s = .tryCatch attempt recovery always output ∧
      (∃ r, required record "try" = .ok r ∧ r.steps true = .ok attempt) ∧
      (∀ steps, recovery = some steps → ∃ r, present? record "catch" = some r ∧ r.steps true = .ok steps) ∧
      optionalSteps record "finally" = .ok always := by
  have hrest {recovery : Option (List Step)}
      (h : (optionalSteps record "finally" >>= fun always => optionalText record "output" >>= fun output =>
        required record "try" >>= fun r => r.steps true >>= fun attempt =>
          pure (Step.tryCatch attempt recovery always output)) = Except.ok s) :
      ∃ attempt always output, s = .tryCatch attempt recovery always output ∧
        (∃ r, required record "try" = .ok r ∧ r.steps true = .ok attempt) ∧
        optionalSteps record "finally" = .ok always := by
    obtain ⟨always, halways, h⟩ := exists_ok_of_bind h
    obtain ⟨output, -, h⟩ := exists_ok_of_bind h
    obtain ⟨r, hrequired, h⟩ := exists_ok_of_bind h
    obtain ⟨attempt, hread, h⟩ := exists_ok_of_bind h
    exact ⟨attempt, always, output, (Except.ok.inj h).symm, ⟨r, hrequired, hread⟩, halways⟩
  rw [stepOf] at h
  cases hpresent : present? record "catch" with
  | none =>
    rw [hpresent] at h
    obtain ⟨attempt, always, output, hs, htry, halways⟩ := hrest h
    refine ⟨attempt, none, always, output, hs, htry, fun steps hsome => ?_, halways⟩
    cases hsome
  | some r =>
    rw [hpresent] at h
    obtain ⟨recovery, hread, h⟩ := exists_ok_of_bind h
    obtain ⟨attempt, always, output, hs, htry, halways⟩ := hrest h
    refine ⟨attempt, recovery, always, output, hs, htry, fun steps hsome => ⟨r, rfl, ?_⟩, halways⟩
    rw [hsome] at hread
    cases hsteps : r.steps true with
    | error e =>
      rw [hsteps] at hread
      cases hread
    | ok others =>
      rw [hsteps] at hread
      cases hread
      rfl

theorem exists_of_subPipeline (h : stepOf record .subPipeline = .ok s) :
    ∃ pipeline inputs output, s = .subPipeline pipeline inputs output ∧
      ∃ r, required record "pipeline" = .ok r ∧ r.pipeline true = .ok pipeline := by
  obtain ⟨inputs, -, h⟩ := exists_ok_of_bind h
  obtain ⟨output, -, h⟩ := exists_ok_of_bind h
  obtain ⟨r, hrequired, h⟩ := exists_ok_of_bind h
  obtain ⟨pipeline, hread, h⟩ := exists_ok_of_bind h
  exact ⟨pipeline, inputs, output, (Except.ok.inj h).symm, r, hrequired, hread⟩

end Reading

/-! ### What checks and readings have in common -/

theorem exists_of_mem_mapM {α β : Type} {f : α → Except DecodeError β} {items : List α} {results : List β}
    (h : items.mapM f = .ok results) : ∀ b ∈ results, ∃ a ∈ items, f a = .ok b := by
  induction items generalizing results with
  | nil =>
    cases h
    exact nofun
  | cons first rest ih =>
    rw [List.mapM_cons] at h
    obtain ⟨b, hb, h⟩ := exists_ok_of_bind h
    obtain ⟨others, hothers, h⟩ := exists_ok_of_bind h
    cases h
    refine List.forall_mem_cons.mpr ⟨⟨first, List.mem_cons_self, hb⟩, fun c hc => ?_⟩
    obtain ⟨a, ha, hc⟩ := ih hothers c hc
    exact ⟨a, List.mem_cons_of_mem _ ha, hc⟩

/-- What is known of the depth of what a value is read as, from the checks that found nothing in it. -/
structure Measured (v : Value) : Prop where
  step : ∀ rules path depth inner s, depth ≤ rules.maxNesting → Sound (v.inspection.step rules path depth) →
    v.reading.step inner = .ok s → Fits rules.maxNesting depth v s
  steps : ∀ items, v = .arr items → ∀ rules path depth inner steps, Sound (v.inspection.steps rules path depth) →
    v.reading.steps inner = .ok steps → ListFits rules.maxNesting depth items steps
  pipeline : ∀ rules path depth inner pipeline, Sound (v.inspection.pipeline rules path depth) →
    v.reading.pipeline inner = .ok pipeline → ListFits rules.maxNesting depth (v.listAt "steps") pipeline.steps

section

variable {fields : Fields Value} {rules : Rules} {path : Path} {depth : Nat} {key : Key} { mandatory : Bool}
  {name : String} {r : Reading} {steps : List Step}

theorem exists_of_required (h : Reading.required (readings fields) name = .ok r) :
    ∃ v, Fields.get? name fields = some v ∧ v.reading = r := by
  rw [Reading.required, Fields.get?_map] at h
  cases hget : Fields.get? name fields with
  | none =>
    rw [hget] at h
    cases h
  | some v =>
    rw [hget] at h
    exact ⟨v, rfl, Except.ok.inj h⟩

theorem exists_of_present (h : Reading.present? (readings fields) name = some r) :
    ∃ v, Fields.get? name fields = some v ∧ v.reading = r := by
  rw [present_readings] at h
  obtain ⟨v, hget, h⟩ := Option.bind_eq_some_iff.mp h
  split at h
  · cases h
  · exact ⟨v, hget, Option.some.inj h⟩

/-- A list that is there has been counted. -/
theorem listFits_of_sound (hfields : ∀ entry ∈ fields, Measured entry.2)
    (h : Sound (Inspection.stepList rules (inspected fields) path depth key mandatory)) {v : Value}
    (hget : Fields.get? key.name fields = some v) (hread : v.reading.steps true = .ok steps) :
    ListFits rules.maxNesting (depth + 1) ((Value.obj fields).listAt key.name) steps := by
  rcases sound_stepList h with ⟨items, hitems, hsound⟩ | ⟨-, habsent⟩
  · obtain rfl := Option.some.inj (hget.symm.trans hitems)
    rw [listAt_obj key.name items hget]
    exact (hfields _ (Fields.mem_of_get? hget)).steps items rfl _ _ _ true steps hsound hread
  · rcases habsent with hnone | hnull
    · rw [hget] at hnone
      cases hnone
    · obtain rfl := Option.some.inj (hget.symm.trans hnull)
      cases hread

/-- A list that may be left out is empty then, or it has been counted. -/
theorem listFits_of_optionalSteps (hfields : ∀ entry ∈ fields, Measured entry.2)
    (h : Sound (Inspection.stepList rules (inspected fields) path depth key mandatory))
    (hread : Reading.optionalSteps (readings fields) key.name = .ok steps) :
    steps = [] ∨ ListFits rules.maxNesting (depth + 1) ((Value.obj fields).listAt key.name) steps := by
  rw [Reading.optionalSteps] at hread
  cases hpresent : Reading.present? (readings fields) key.name with
  | none =>
    rw [hpresent] at hread
    cases hread
    exact .inl rfl
  | some r =>
    rw [hpresent] at hread
    obtain ⟨v, hget, rfl⟩ := exists_of_present hpresent
    exact .inr (listFits_of_sound hfields h hget hread)

theorem listFits_of_required (hfields : ∀ entry ∈ fields, Measured entry.2)
    (h : Sound (Inspection.stepList rules (inspected fields) path depth key mandatory))
    (hrequired : Reading.required (readings fields) key.name = .ok r) (hread : r.steps true = .ok steps) :
    ListFits rules.maxNesting (depth + 1) ((Value.obj fields).listAt key.name) steps := by
  obtain ⟨v, hget, rfl⟩ := exists_of_required hrequired
  exact listFits_of_sound hfields h hget hread

/-- A list that is passed over if it is empty is entered only if it has been counted. -/
theorem listFits_of_entered {ceiling : Nat} {items : List Value} {s : Step} {below : Path}
    (h : steps = [] ∨ ListFits ceiling depth items steps) (hpassed : s.passesOver below = true)
    (henter : s.mayEnter (below, steps)) : ListFits ceiling depth items steps := by
  rcases h with rfl | hfits
  · simp [Step.mayEnter, hpassed] at henter
  · exact hfits

/-- A step in which nothing is found fits under the ceiling. -/
theorem fits_stepOf (hfields : ∀ entry ∈ fields, Measured entry.2) {kind : StepKind}
    (hkind : (Value.obj fields).stepKind? = some kind) (hdepth : depth ≤ rules.maxNesting)
    (hbody : Sound (Inspection.ofKind rules (inspected fields) path depth kind)) {s : Step}
    (h : Reading.stepOf (readings fields) kind = .ok s) : Fits rules.maxNesting depth (.obj fields) s := by
  refine fits_of_lists hdepth ?_
  rw [Value.innerSteps, hkind]
  cases kind with
  | ability =>
    rw [Reading.children_of_ability h]
    exact List.forall_mem_nil _
  | transform =>
    rw [Reading.children_of_transform h]
    exact List.forall_mem_nil _
  | conditional =>
    rw [Inspection.ofKind, sound_append, sound_append] at hbody
    obtain ⟨⟨-, hthen⟩, helse⟩ := hbody
    obtain ⟨condition, whenTrue, whenFalse, output, rfl, htrue, hfalse⟩ := Reading.exists_of_conditional h
    have hthen := listFits_of_optionalSteps hfields hthen htrue
    have helse := listFits_of_optionalSteps hfields helse hfalse
    refine List.forall_mem_cons.mpr ⟨fun henter => .inl ?_, List.forall_mem_singleton.mpr fun henter => .inl ?_⟩
    · exact (listFits_of_entered hthen rfl henter).mono (List.subset_append_left _ _)
    · exact (listFits_of_entered helse rfl henter).mono (List.subset_append_right _ _)
  | loop =>
    rw [Inspection.ofKind, sound_append, sound_append] at hbody
    obtain ⟨input, body, itemVar, indexVar, collect, output, rfl, r, hrequired, hread⟩ := Reading.exists_of_loop h
    exact List.forall_mem_singleton.mpr fun _ => .inl (listFits_of_required hfields hbody.2 hrequired hread)
  | parallel =>
    rw [Inspection.ofKind, sound_append, sound_append] at hbody
    obtain ⟨branches, output, rfl, r, hrequired, hbranches⟩ := Reading.exists_of_parallel h
    refine List.forall_mem_singleton.mpr fun _ => ?_
    rcases hbranches with ⟨hnull, rfl⟩ | ⟨-, hread⟩
    · -- No list has been counted here, and an empty one is entered.
      obtain ⟨v, hget, rfl⟩ := exists_of_required hrequired
      rw [Value.reading_value] at hnull
      have hmember : (Value.obj fields).member? "steps" = some v := hget
      exact .inr ⟨rfl, by simp [Value.isBranchless, hkind, hmember, hnull]⟩
    · exact .inl (listFits_of_required hfields hbody.1.2 hrequired hread)
  | tryCatch =>
    rw [Inspection.ofKind, sound_append, sound_append] at hbody
    obtain ⟨⟨htry, hcatch⟩, hfinally⟩ := hbody
    obtain ⟨attempt, recovery, always, output, rfl, ⟨r, hrequired, hread⟩, hrecovery, halways⟩ :=
      Reading.exists_of_tryCatch h
    have htry := listFits_of_required hfields htry hrequired hread
    have hfinally := listFits_of_optionalSteps hfields hfinally halways
    refine List.forall_mem_append.mpr ⟨List.forall_mem_cons.mpr ⟨fun _ => .inl ?_, fun list hlist _ => .inl ?_⟩,
      List.forall_mem_singleton.mpr fun henter => .inl ?_⟩
    · exact htry.mono fun _ hitem => List.mem_append_left _ (List.mem_append_left _ hitem)
    · obtain ⟨steps, hsome, rfl⟩ := Option.map_eq_some_iff.mp (Option.mem_toList.mp hlist)
      obtain ⟨r, hpresent, hread⟩ := hrecovery steps hsome
      obtain ⟨v, hget, rfl⟩ := exists_of_present hpresent
      have hcatch := listFits_of_sound hfields hcatch hget hread
      exact hcatch.mono fun _ hitem => List.mem_append_left _ (List.mem_append_right _ hitem)
    · exact (listFits_of_entered hfinally rfl henter).mono (List.subset_append_right _ _)
  | subPipeline =>
    rw [Inspection.ofKind, sound_append] at hbody
    obtain ⟨hpipeline, -⟩ := hbody
    obtain ⟨pipeline, inputs, output, rfl, r, hrequired, hread⟩ := Reading.exists_of_subPipeline h
    obtain ⟨v, hget, rfl⟩ := exists_of_required hrequired
    rw [Fields.get?_map, hget] at hpipeline
    have hmember : (Value.obj fields).member? "pipeline" = some v := hget
    refine List.forall_mem_singleton.mpr fun _ => .inl ?_
    rw [hmember]
    exact (hfields _ (Fields.mem_of_get? hget)).pipeline _ _ _ true pipeline hpipeline hread

theorem listFits_pipelineOf (hfields : ∀ entry ∈ fields, Measured entry.2) {inner : Bool} {pipeline : Pipeline}
    (h : Sound (Inspection.pipelineOf (inspected fields) rules path depth))
    (hread : Reading.pipelineOf (readings fields) inner = .ok pipeline) :
    ListFits rules.maxNesting depth ((Value.obj fields).listAt "steps") pipeline.steps := by
  rw [Inspection.pipelineOf, sound_append] at h
  obtain ⟨-, hsteps⟩ := h
  obtain ⟨r, hrequired, hread⟩ := (Reading.parts_of_pipelineOf hread).2
  obtain ⟨v, hget, rfl⟩ := exists_of_required hrequired
  rw [Fields.get?_map, hget] at hsteps
  simp only [Option.map_some, Value.inspection_value] at hsteps
  cases v with
  | arr items =>
    rw [listAt_obj "steps" items hget]
    cases items with
    | nil => simp [Problem.isWarning] at hsteps
    | cons first rest =>
      exact (hfields _ (Fields.mem_of_get? hget)).steps _ rfl _ _ _ inner _ hsteps hread
  | _ => simp [Problem.isWarning] at hsteps

end

/-! ### Whole definitions -/

/-- What a value is read as is no deeper than its checks have found it to be. -/
theorem measured (v : Value) : Measured v := by
  induction v using Value.induction with
  | null | bool | num | str =>
    constructor
    · intro rules path depth inner s _ h
      simp [Value.inspection, Value.fold, Inspection.leaf, Problem.isWarning] at h
    · intro items hitems
      cases hitems
    · intro rules path depth inner pipeline h
      simp [Value.inspection, Value.fold, Inspection.leaf, Problem.isWarning] at h
  | arr items ih =>
    constructor
    · intro rules path depth inner s _ h
      simp [Value.inspection_arr, Inspection.ofItems, Problem.isWarning] at h
    · intro _ heq rules path depth inner steps h hread
      obtain rfl := Value.arr.inj heq
      rw [Value.inspection_arr] at h
      change Sound (if rules.maxNesting < depth then _ else _) at h
      rw [Value.reading_arr] at hread
      change (items.map Value.reading).mapM (fun r => r.step inner) = .ok steps at hread
      split at h
      · simp [Problem.isWarning] at h
      next hshallow =>
        have hdepth := Nat.not_lt.mp hshallow
        refine ⟨hdepth, fun t ht => ?_⟩
        obtain ⟨r, hr, hstep⟩ := exists_of_mem_mapM hread t ht
        obtain ⟨item, hitem, rfl⟩ := List.mem_map.mp hr
        obtain ⟨place, hplace⟩ := sound_each h _ (List.mem_map_of_mem hitem)
        exact ⟨item, hitem, (ih item hitem).step rules place depth inner t hdepth hplace hstep⟩
    · intro rules path depth inner pipeline h
      simp [Value.inspection_arr, Inspection.ofItems, Problem.isWarning] at h
  | obj fields ih =>
    constructor
    · intro rules path depth inner s hdepth h hread
      rw [Value.inspection_obj] at h
      rw [Value.reading_obj] at hread
      change Sound (Inspection.stepOf (inspected fields) rules path depth) at h
      change Reading.stepOfEntries (readings fields) inner = .ok s at hread
      obtain ⟨kind, hkind, -, hbody, hkindRead⟩ := exists_kind_of_sound h
      rw [hkindRead] at hread
      exact fits_stepOf ih hkind hdepth hbody hread
    · intro items hitems
      cases hitems
    · intro rules path depth inner pipeline h hread
      rw [Value.inspection_obj] at h
      rw [Value.reading_obj] at hread
      exact listFits_pipelineOf ih h hread

/-- A definition within a ceiling goes one level beyond it at most, and only if a parallel step with null for its
branches stands in a list at the ceiling. -/
theorem Rules.reach_of_accepts {rules : Rules} {definition : Value} {pipeline : Pipeline}
    (haccepts : rules.accepts definition = true) (hdecode : PipelineOf.decode definition = .ok pipeline)
    (hbeyond : rules.maxNesting < pipeline.reach) :
    pipeline.reach = rules.maxNesting + 1 ∧ definition.isBranchlessAt rules.maxNesting := by
  have hfits : ListFits rules.maxNesting 0 (definition.listAt "steps") pipeline.steps :=
    (measured definition).pipeline rules [] 0 false pipeline (accepts_iff.mp haccepts) hdecode
  have hwithin : pipeline.reach ≤ rules.maxNesting + 1 := PipelineOf.reach_le_iff.mpr fun s hs => by
    obtain ⟨item, -, hitem⟩ := hfits.steps s hs
    have hstep := hitem.within
    omega
  refine ⟨by omega, ?_⟩
  have hdeep : ¬ pipeline.reach ≤ rules.maxNesting := Nat.not_le.mpr hbeyond
  rw [PipelineOf.reach_le_iff] at hdeep
  obtain ⟨s, hs, hstep⟩ : ∃ s ∈ pipeline.steps, ¬ s.reach ≤ rules.maxNesting := by simpa using hdeep
  obtain ⟨item, hitem, hfitting⟩ := hfits.steps s hs
  obtain ⟨n, hn, t, ht, hbranchless⟩ := hfitting.beyond (by omega)
  obtain rfl : n = rules.maxNesting := by omega
  exact List.any_eq_true.mpr ⟨item, hitem, List.any_eq_true.mpr ⟨t, ht, hbranchless⟩⟩

/-- A definition that something is computed from can be read. -/
theorem PipelineOf.exists_of_decode {α : Type} {definition : Value} {f : Pipeline → α} {a : α}
    (h : (PipelineOf.decode definition).toOption.map f = some a) :
    ∃ pipeline, PipelineOf.decode definition = .ok pipeline ∧ f pipeline = a := by
  obtain ⟨pipeline, hpipeline, ha⟩ := Option.map_eq_some_iff.mp h
  cases hdecode : PipelineOf.decode definition with
  | error e =>
    rw [hdecode] at hpipeline
    cases hpipeline
  | ok other =>
    rw [hdecode] at hpipeline
    cases hpipeline
    exact ⟨pipeline, rfl, ha⟩

namespace Engine

/-- A run of an accepted definition does not exceed a limit of depth that is no lower than the ceiling of the checks,
unless they are equal and a parallel step with null for its branches stands in a list at that very depth. -/
theorem runPipeline_within_ceiling (engine : Engine) (rules : Rules) (definition : Value) (pipeline : Pipeline)
    (haccepts : rules.accepts definition = true) (hdecode : PipelineOf.decode definition = .ok pipeline)
    (hceiling : rules.maxNesting ≤ engine.limits.maxDepth)
    (hlisted : engine.limits.maxDepth = rules.maxNesting → definition.isBranchlessAt rules.maxNesting = false)
    (context : Value) (clock : Clock) :
    ¬ (engine.runPipeline pipeline context clock).Raises "DepthLimitExceeded" := by
  refine runPipeline_shallow engine (Nat.le_of_not_lt fun hbeyond => ?_) context clock
  obtain ⟨hreach, hbranchless⟩ := Rules.reach_of_accepts haccepts hdecode (by omega)
  have hunlisted := hlisted (by omega)
  rw [hbranchless] at hunlisted
  cases hunlisted

/-- A definition that nests a parallel step with null for its branches in a list at depth one runs under a ceiling of
two. A ceiling of one accepts it as well, and then the same limit of depth stops it. -/
theorem runPipeline_within_ceiling_of_room :
    let branchless : Value := .obj [("steps", .null), ("type", .str "parallel")]
    let definition : Value := .obj [("steps", .arr [.obj [("condition", .obj [("field", .bool true)]),
      ("then", .arr [branchless]), ("type", .str "conditional")]])]
    let rules (maxNesting : Nat) : Rules := ⟨maxNesting, none⟩
    let report (pipeline : Pipeline) (maxDepth : Nat) :=
      runPipeline ⟨.none, .builtin, ⟨100, maxDepth, 300⟩⟩ pipeline .null
    ∃ pipeline, PipelineOf.decode definition = .ok pipeline ∧
      ((rules 2).accepts definition = true ∧ ¬ (report pipeline 2).Raises "DepthLimitExceeded") ∧
      ((rules 1).accepts definition = true ∧ (report pipeline 1).Raises "DepthLimitExceeded") := by
  intro branchless definition rules report
  have hstopped : (PipelineOf.decode definition).toOption.map
      (fun pipeline => (report pipeline 1).error.map ErrorInfo.kind) = some (some "DepthLimitExceeded") := by
    decide +kernel
  obtain ⟨pipeline, hdecode, hraises⟩ := PipelineOf.exists_of_decode hstopped
  have haccepts : (rules 2).accepts definition = true := by decide +kernel
  have hlisted : definition.isBranchlessAt 2 = false := by decide +kernel
  refine ⟨pipeline, hdecode, ⟨haccepts, ?_⟩, by decide +kernel, .inr (Option.map_eq_some_iff.mp hraises)⟩
  exact runPipeline_within_ceiling ⟨.none, .builtin, ⟨100, 2, 300⟩⟩ (rules 2) definition pipeline haccepts hdecode
    (Nat.le_refl 2) (fun _ => hlisted) .null .still

/-- A definition that is nested as deep as the standard ceiling allows does not run under the same limit of depth, if
its innermost step is a parallel one with null for its branches. -/
theorem not_forall_within_ceiling :
    ¬ ∀ (engine : Engine) (rules : Rules) (definition : Value) (pipeline : Pipeline) (context : Value) (clock : Clock),
      rules.accepts definition = true → PipelineOf.decode definition = .ok pipeline →
      rules.maxNesting ≤ engine.limits.maxDepth →
      ∀ info, (engine.runPipeline pipeline context clock).error = some info → info.kind ≠ "DepthLimitExceeded" := by
  intro hforall
  let branchless : Value := .obj [("steps", .null), ("type", .str "parallel")]
  let inConditional (step : Value) : Value := .obj [("condition", .obj [("field", .bool true)]),
    ("then", .arr [step]), ("type", .str "conditional")]
  let definition : Value := .obj [("steps", .arr [Nat.repeat inConditional 32 branchless])]
  let engine : Engine := ⟨.none, .builtin, ⟨1000, 32, 300⟩⟩
  have haccepts : Rules.standard.accepts definition = true := by decide +kernel
  have hstopped : (PipelineOf.decode definition).toOption.map
      (fun pipeline => (engine.runPipeline pipeline (.obj [])).error.map ErrorInfo.kind) =
        some (some "DepthLimitExceeded") := by
    decide +kernel
  obtain ⟨pipeline, hdecode, hraises⟩ := PipelineOf.exists_of_decode hstopped
  obtain ⟨info, hinfo, hkind⟩ := Option.map_eq_some_iff.mp hraises
  have hceiling : Rules.standard.maxNesting ≤ engine.limits.maxDepth := Nat.le_refl 32
  exact hforall engine .standard definition pipeline (.obj []) .still haccepts hdecode hceiling info hinfo hkind

end Engine

end Pipewright
