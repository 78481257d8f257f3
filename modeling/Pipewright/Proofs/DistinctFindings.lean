import Mathlib.Data.List.Sigma
import Pipewright.Proofs.ProblemTexts
import Pipewright.Proofs.TraceGrammar
import Pipewright.Proofs.ValueInduction

/-!
# Problems are found once

A check looks at each part of a definition once and at each of its fields for problems of their own. Step lists and
nested pipelines stand under keys of their own and the items of a list at indices of their own; the groups of a
condition share its path, but a condition of the form of an object is only one of an `and`, an `or`, a `not` or a
comparison. So no problem is found twice at one place, and no two findings read the same.
-/
namespace Pipewright

namespace Inspection

/-! ### Findings in a part of a definition -/

/-- Findings in a part of a definition, none of them twice. -/
structure Distinct (path : Path) (found : List Finding) : Prop where
  nodup : found.Nodup
  inside : ∀ finding ∈ found, path <+: finding.path

/-- Findings in a part of a definition, none of them twice. At the part itself they are of the problems `own`, and
the others are in the parts that stand under some of its keys. -/
structure Parted (path : Path) (own : List Problem) (parts : List Key) (found : List Finding) : Prop where
  nodup : found.Nodup
  place : ∀ finding ∈ found,
    finding.path = path ∧ finding.problem ∈ own ∨ ∃ k ∈ parts, path.key k <+: finding.path

section

variable {path : Path} {own more : List Problem} {parts others : List Key} {found rest : List Finding}
  {problem : Problem}

theorem distinct_nil : Distinct path [] := ⟨List.nodup_nil, nofun⟩

theorem distinct_singleton : Distinct path [⟨path, problem⟩] :=
  ⟨List.nodup_singleton _, List.forall_mem_singleton.mpr List.prefix_rfl⟩

theorem Parted.distinct (h : Parted path own parts found) : Distinct path found where
  nodup := h.nodup
  inside finding hfinding := by
    rcases h.place finding hfinding with ⟨hpath, -⟩ | ⟨k, -, hin⟩
    · exact hpath ▸ List.prefix_rfl
    · exact (Path.below_of_key hin).1

theorem Distinct.parted {k : Key} (h : Distinct (path.key k) found) : Parted path own [k] found :=
  ⟨h.nodup, fun finding hfinding => .inr ⟨k, List.mem_singleton_self k, h.inside finding hfinding⟩⟩

theorem parted_nil : Parted path own parts [] := ⟨List.nodup_nil, nofun⟩

theorem parted_singleton (h : problem ∈ own) : Parted path own parts [⟨path, problem⟩] :=
  ⟨List.nodup_singleton _, List.forall_mem_singleton.mpr (.inl ⟨rfl, h⟩)⟩

theorem parted_findIf {b : Bool} (h : b = true → problem ∈ own) :
    Parted path own parts (findIf b path problem) := by
  cases b with
  | false => exact parted_nil
  | true => exact parted_singleton (h rfl)

theorem Parted.mono (h : Parted path own parts found) (hown : own ⊆ more) (hparts : parts ⊆ others) :
    Parted path more others found :=
  ⟨h.nodup, fun finding hfinding => (h.place finding hfinding).imp (fun hat => ⟨hat.1, hown hat.2⟩)
    fun ⟨k, hk, hin⟩ => ⟨k, hparts hk, hin⟩⟩

/-- Findings of other problems and under other keys are other findings. -/
theorem Parted.append (h : Parted path own parts found) (hrest : Parted path more others rest)
    (hown : ∀ problem ∈ own, problem ∉ more) (hparts : ∀ k ∈ parts, k ∉ others) :
    Parted path (own ++ more) (parts ++ others) (found ++ rest) where
  nodup := by
    refine h.nodup.append hrest.nodup fun finding hfinding hagain => ?_
    rcases h.place finding hfinding with ⟨hpath, hproblem⟩ | ⟨k, hk, hin⟩
    · rcases hrest.place finding hagain with ⟨-, hmore⟩ | ⟨l, -, hunder⟩
      · exact hown _ hproblem hmore
      · exact (Path.below_of_key hunder).2 hpath
    · rcases hrest.place finding hagain with ⟨hpath, -⟩ | ⟨l, hl, hunder⟩
      · exact (Path.below_of_key hin).2 hpath
      · exact hparts k hk (Path.key_unique hin hunder ▸ hl)
  place := by
    refine List.forall_mem_append.mpr ⟨fun finding hfinding => ?_, fun finding hfinding => ?_⟩
    · exact (h.mono (List.subset_append_left _ _) (List.subset_append_left _ _)).place finding hfinding
    · exact (hrest.mono (List.subset_append_right _ _) (List.subset_append_right _ _)).place finding hfinding

/-- Findings of a problem that was not looked for before are other findings. -/
theorem Parted.append_one (h : Parted path own parts found) (hrest : Parted path [problem] [] rest)
    (hnew : problem ∉ own) : Parted path (own ++ [problem]) parts (found ++ rest) := by
  have hown : ∀ other ∈ own, other ∉ [problem] := fun other hother hsame =>
    hnew (List.mem_singleton.mp hsame ▸ hother)
  have hboth := h.append hrest hown fun _ _ => List.not_mem_nil
  rwa [List.append_nil] at hboth

theorem parted_flatMap {α : Type} {items : List α} {check : α → List Finding} {problem : α → Problem}
    (hnodup : (items.map problem).Nodup) (h : ∀ item, Parted path [problem item] [] (check item)) :
    Parted path (items.map problem) [] (items.flatMap check) := by
  induction items with
  | nil => exact parted_nil
  | cons item items ih =>
    rw [List.map_cons, List.nodup_cons] at hnodup
    exact (h item).append (ih hnodup.2) (List.forall_mem_singleton.mpr hnodup.1) nofun

/-- The items of a list are checked at indices of their own. -/
theorem distinct_each {items : List Inspection} {check : Inspection → Path → List Finding}
    (h : ∀ item ∈ items, ∀ place, Distinct place (check item place)) : Distinct path (each path items check) := by
  have hentry : ∀ entry ∈ items.zipIdx, Distinct (path.index entry.2) (check entry.1 (path.index entry.2)) :=
    fun entry hentry => h entry.1 (List.fst_mem_of_mem_zipIdx hentry) _
  constructor
  · rw [each, List.nodup_flatMap]
    refine ⟨fun entry hmem => (hentry entry hmem).nodup, ?_⟩
    refine (List.pairwise_map.mp (List.nodup_zipIdx_map_snd items)).imp_of_mem ?_
    intro entry other hmem hother hne finding hfinding hagain
    exact hne (Path.index_unique ((hentry entry hmem).inside finding hfinding)
      ((hentry other hother).inside finding hagain))
  · intro finding hfinding
    obtain ⟨entry, hmem, hfound⟩ := List.mem_flatMap.mp hfinding
    exact (Path.below_of_index ((hentry entry hmem).inside finding hfound)).1

end

/-! ### Fields -/

section

variable (entries : Entries) (path : Path) (field : String)

theorem parted_optionalText : Parted path [.notText field] [] (optionalText entries path field) := by
  rw [optionalText]
  split
  · exact parted_nil
  · exact parted_nil
  · exact parted_nil
  · exact parted_singleton (List.mem_singleton_self _)

theorem parted_optionalObject : Parted path [.notObject field] [] (optionalObject entries path field) := by
  rw [optionalObject]
  split
  · exact parted_nil
  · exact parted_nil
  · exact parted_nil
  · exact parted_singleton (List.mem_singleton_self _)

theorem parted_mandatoryField : Parted path [.missing field] [] (mandatoryField entries path field) :=
  parted_findIf fun _ => List.mem_singleton_self _

end

/-- The problems of limits. -/
def limitsProblems : List Problem :=
  ["max_steps", "max_depth", "timeout_secs"].map .limitNotNatural ++ [.notObject "limits"]

theorem parted_limits (path : Path) (v : Value) : Parted path limitsProblems [] (limits path v) := by
  cases v with
  | obj fields =>
    refine (parted_flatMap (by decide) fun field => ?_).mono (List.subset_append_left _ _) (List.Subset.refl _)
    split
    · exact parted_findIf fun _ => List.mem_singleton_self _
    · exact parted_nil
  | _ => exact parted_singleton (by decide)

/-! ### Steps, pipelines and conditions -/

/-- The problems that a step can have with one of its lists of steps. -/
def listProblems (key : Key) : Bool → List Problem
  | true => [.missing key.name, .emptyList key.name, .notStepList key.name]
  | false => [.notStepList key.name]

/-- The problems that a pipeline itself can have. -/
def pipelineProblems : List Problem :=
  ["name", "description", "output"].map .notText ++ limitsProblems ++
    [.noSteps, .emptySteps, .stepsNotList, .notPipeline]

/-- Each check of a value finds nothing twice, and looks nowhere but in the value. Of a pipeline it is also known which
problems it has itself, for those of a whole definition are told without a path. -/
structure Tidy (checks : Inspection) : Prop where
  pipeline : ∀ rules path depth, Parted path pipelineProblems [.steps] (checks.pipeline rules path depth)
  steps : ∀ rules path depth, Distinct path (checks.steps rules path depth)
  step : ∀ rules path depth, Distinct path (checks.step rules path depth)
  condition : ∀ path, Distinct path (checks.condition path)

theorem tidy_leaf (v : Value) : Tidy (leaf v) where
  pipeline _ _ _ := parted_singleton (by decide)
  steps _ _ _ := distinct_nil
  step _ _ _ := distinct_singleton
  condition _ := distinct_singleton

theorem tidy_ofItems {items : List Inspection} (h : ∀ item ∈ items, Tidy item) : Tidy (ofItems items) where
  pipeline _ _ _ := parted_singleton (by decide)
  steps rules path depth := by
    rw [ofItems]
    dsimp only
    split
    · exact distinct_singleton
    · exact distinct_each fun item hitem place => (h item hitem).step rules place depth
  step _ _ _ := distinct_singleton
  condition _ := distinct_each fun item hitem place => (h item hitem).condition place

section

variable {entries : Entries} (h : ∀ entry ∈ entries, Tidy entry.2)

include h

theorem tidy_of_get? {field : String} {found : Inspection} (hget : Fields.get? field entries = some found) :
    Tidy found :=
  h _ (Fields.mem_of_get? hget)

/-- A list of steps is found missing or of the wrong form at its step, and everything in it under its key. -/
theorem parted_stepList (rules : Rules) (path : Path) (depth : Nat) (key : Key) (mandatory : Bool) :
    Parted path (listProblems key mandatory) [key] (stepList rules entries path depth key mandatory) := by
  have hmissing : Parted path (listProblems key mandatory) [key] (findIf mandatory path (.missing key.name)) :=
    parted_findIf fun hmandatory => by simp [listProblems, hmandatory]
  rw [stepList]
  cases hget : Fields.get? key.name entries with
  | none => exact hmissing
  | some list =>
    dsimp only
    split
    · exact hmissing
    next items _ =>
      have hempty : Parted path (listProblems key mandatory) []
          (findIf (mandatory && items.isEmpty) path (.emptyList key.name)) :=
        parted_findIf fun hboth => by simp [listProblems, (Bool.and_eq_true_iff.mp hboth).1]
      have hsteps : Parted path [] [key] (list.steps rules (path.key key) (depth + 1)) :=
        ((tidy_of_get? h hget).steps rules _ _).parted
      simpa using hempty.append hsteps (fun _ _ => List.not_mem_nil) nofun
    · exact parted_singleton (by cases mandatory <;> simp [listProblems])

/-- The fields of a kind of step do not share their problems with each other or with the output. -/
theorem parted_ofKind (rules : Rules) (path : Path) (depth : Nat) (kind : StepKind) :
    ∃ own parts, .notText "output" ∉ own ∧ Parted path own parts (ofKind rules entries path depth kind) := by
  have hlist := parted_stepList h rules path depth
  cases kind with
  | ability =>
    refine ⟨[.missing "ability", .emptyAbility, .notText "ability"], [], by decide, ?_⟩
    rw [ofKind]
    split
    · exact parted_singleton (by decide)
    · exact parted_findIf fun _ => by decide
    · exact parted_singleton (by decide)
  | transform =>
    have hfields {own : List Problem} {found : List Finding} (hfound : Parted path own [] found)
        (houtput : .notText "output" ∉ own) (hinput : .missing "input" ∉ own) (hparams : .notObject "params" ∉ own) :
        ∃ own parts, .notText "output" ∉ own ∧ Parted path own parts
          (found ++ mandatoryField entries path "input" ++ optionalObject entries path "params") :=
      ⟨own ++ [.missing "input"] ++ [.notObject "params"], [], by simpa using houtput,
        (hfound.append_one (parted_mandatoryField ..) hinput).append_one (parted_optionalObject ..)
          (by simpa using hparams)⟩
    rw [ofKind]
    split
    · exact hfields (parted_singleton (List.mem_singleton_self _)) (by decide) (by decide) (by decide)
    · exact hfields (parted_findIf fun _ => List.mem_singleton_self _) (by simp) (by simp) (by simp)
    · exact hfields (parted_singleton (List.mem_singleton_self _)) (by decide) (by decide) (by decide)
  | conditional =>
    refine ⟨[.missing "condition"] ++ listProblems .thenSteps false ++ listProblems .elseSteps false,
      [.condition] ++ [.thenSteps] ++ [.elseSteps], by decide, ?_⟩
    rw [ofKind]
    refine (Parted.append ?_ (hlist .thenSteps false) (by decide) (by decide)).append
      (hlist .elseSteps false) (by decide) (by decide)
    split
    · exact parted_singleton (List.mem_singleton_self _)
    next hget => exact ((tidy_of_get? h hget).condition _).parted
  | loop =>
    have hnames : Parted path (["item_var", "itemVar", "index_var", "indexVar", "collect"].map .notText) []
        (["item_var", "itemVar", "index_var", "indexVar", "collect"].flatMap (optionalText entries path)) :=
      parted_flatMap (by decide) (parted_optionalText entries path)
    exact ⟨_, _, by decide, ((parted_mandatoryField entries path "input").append hnames (by decide)
      (by decide)).append (hlist .steps true) (by decide) (by decide)⟩
  | parallel =>
    refine ⟨[.noBranches] ++ listProblems .steps false ++ [.missing "steps"], [] ++ [.steps], by decide, ?_⟩
    rw [ofKind]
    refine (Parted.append ?_ (hlist .steps false) (by decide) (by decide)).append_one
      (parted_mandatoryField entries path "steps") (by decide)
    split
    · exact parted_singleton (List.mem_singleton_self _)
    · exact parted_nil
  | tryCatch =>
    exact ⟨_, _, by decide, ((hlist .trySteps true).append (hlist .catchSteps false) (by decide)
      (by decide)).append (hlist .finallySteps false) (by decide) (by decide)⟩
  | subPipeline =>
    refine ⟨[.missing "pipeline"] ++ [.notObject "inputs"], [.pipeline], by decide, ?_⟩
    rw [ofKind]
    refine Parted.append_one ?_ (parted_optionalObject entries path "inputs") (by decide)
    split
    · exact parted_singleton (List.mem_singleton_self _)
    next hget => exact ((tidy_of_get? h hget).pipeline _ _ _).distinct.parted

theorem distinct_stepOf (rules : Rules) (path : Path) (depth : Nat) :
    Distinct path (stepOf entries rules path depth) := by
  rw [stepOf]
  split
  · exact distinct_singleton
  · split
    · exact distinct_singleton
    next kind _ =>
      obtain ⟨own, parts, houtput, hkind⟩ := parted_ofKind h rules path depth kind
      exact ((parted_optionalText entries path "output").append hkind (List.forall_mem_singleton.mpr houtput)
        nofun).distinct
  · exact distinct_singleton

theorem parted_pipelineOf (rules : Rules) (path : Path) (depth : Nat) :
    Parted path pipelineProblems [.steps] (pipelineOf entries rules path depth) := by
  have hnames : Parted path (["name", "description", "output"].map .notText) []
      (["name", "description", "output"].flatMap (optionalText entries path)) :=
    parted_flatMap (by decide) (parted_optionalText entries path)
  have hlimits : Parted path limitsProblems []
      (((Fields.get? "limits" entries).map fun found => limits path found.value).getD []) := by
    cases Fields.get? "limits" entries with
    | none => exact parted_nil
    | some found => exact parted_limits path found.value
  refine (hnames.append hlimits (by decide) (by decide)).append ?_ (by decide) (by decide)
  split
  · exact parted_singleton (by decide)
  next list hget =>
    split
    · exact parted_singleton (by decide)
    · exact ((tidy_of_get? h hget).steps _ _ _).parted
    · exact parted_singleton (by decide)

/-- A condition of the form of an object has a group, a negation or a comparison looked at, never two of them. -/
theorem distinct_conditionOf (path : Path) : Distinct path (conditionOf entries path) := by
  rw [conditionOf]
  split
  next group hgroup =>
    have htidy : Tidy group := by
      rcases Option.or_eq_some_iff.mp hgroup with hand | ⟨-, hor⟩
      · exact tidy_of_get? h hand
      · exact tidy_of_get? h hor
    split
    · exact htidy.condition path
    · exact distinct_singleton
  · split
    next hget => exact (tidy_of_get? h hget).condition path
    · split
      · split
        · exact distinct_nil
        · exact (parted_findIf fun _ => List.mem_singleton_self _ : Parted path _ [] _).distinct
        · exact distinct_singleton
      · exact distinct_singleton

theorem tidy_ofEntries : Tidy (ofEntries entries) where
  pipeline := parted_pipelineOf h
  steps _ _ _ := distinct_nil
  step := distinct_stepOf h
  condition := distinct_conditionOf h

end

end Inspection

/-- The checks of every value find nothing twice. -/
theorem Value.tidy_inspection (v : Value) : v.inspection.Tidy := by
  induction v using Value.induction with
  | null | bool | num | str => exact Inspection.tidy_leaf _
  | arr items ih =>
    rw [inspection_arr]
    exact Inspection.tidy_ofItems (List.forall_mem_map.mpr ih)
  | obj fields ih =>
    rw [inspection_obj]
    exact Inspection.tidy_ofEntries (List.forall_mem_map.mpr ih)

/-! ### Definitions -/

namespace Rules

variable (rules : Rules) (definition : Value)

theorem findings_nodup : (rules.findings definition).Nodup :=
  (definition.tidy_inspection.pipeline rules [] 0).nodup

/-- The problems of the definition as a whole are told without a colon. -/
theorem endsPath_of_mem_findings {finding : Finding} (h : finding ∈ rules.findings definition) :
    finding.EndsPath := by
  intro hnil
  have hplain : ∀ problem ∈ Inspection.pipelineProblems, ':' ∉ problem.message.toList := by decide +kernel
  rcases (definition.tidy_inspection.pipeline rules [] 0).place finding h with ⟨-, hproblem⟩ | ⟨k, -, hin⟩
  · exact hplain _ hproblem
  · exact absurd hnil (Path.below_of_key hin).2

theorem texts_nodup : ((rules.findings definition).map Finding.text).Nodup :=
  (rules.findings_nodup definition).map_on fun _ hf _ hg =>
    Finding.text_injective (rules.endsPath_of_mem_findings definition hf) (rules.endsPath_of_mem_findings definition hg)

/-- Whatever is found is reported, as an error or as a warning. -/
theorem errors_append_warnings_perm :
    (rules.errors definition ++ rules.warnings definition).Perm ((rules.findings definition).map Finding.text) := by
  rw [errors, warnings, ← List.map_append]
  exact (List.perm_append_comm.trans (List.filter_append_perm _ _)).map Finding.text

/-- No text is twice among the errors or twice among the warnings, and whatever is found is reported once in all. -/
theorem reported_once :
    (rules.errors definition).Nodup ∧ (rules.warnings definition).Nodup ∧
      ∀ finding ∈ rules.findings definition,
        (rules.errors definition ++ rules.warnings definition).count finding.text = 1 := by
  have hperm := rules.errors_append_warnings_perm definition
  have hall := hperm.nodup_iff.mpr (rules.texts_nodup definition)
  refine ⟨hall.of_append_left, hall.of_append_right, fun finding hfinding => ?_⟩
  exact List.count_eq_one_of_mem hall (hperm.mem_iff.mpr (List.mem_map_of_mem hfinding))

/-- A negation and a comparison in a group. What is negated is found at the path of the negation. -/
theorem reported_once_in_group :
    let rules : Rules := ⟨32, none⟩
    let definition : Value := .obj [("steps", .arr [.obj [("type", .str "conditional"), ("condition", .obj [("or",
      .arr [.obj [("not", .null)], .obj [("field", .null), ("operator", .str "near")]])])]])]
    let finding : Finding := ⟨((Path.top.index 0).key .condition).index 1, .unknownOperator "near"⟩
    rules.errors definition = ["steps[0].condition[0]: condition must be an object or a list"] ∧
      rules.warnings definition = ["steps[0].condition[1]: unknown operator 'near'"] ∧
      finding ∈ rules.findings definition ∧
      (rules.errors definition ++ rules.warnings definition).count finding.text = 1 := by
  intro rules definition finding
  have hfinding : finding ∈ rules.findings definition := by decide +kernel
  exact ⟨by decide +kernel, by decide +kernel, hfinding, (reported_once rules definition).2.2 finding hfinding⟩

end Rules

end Pipewright
