import Pipewright.Proofs.DeclaredSteps
import Pipewright.Proofs.ErrorOrigins
import Pipewright.Proofs.ImplicitConjunction
import Pipewright.Proofs.NestingCeiling

/-!
# Names that the checks look up

The checks look at a definition before it is read, and find the operators and transforms in it that there are not. What
the definition is read as asks for no others: the conditions for no operator and the steps for no transform that is not
found, at the very place where the step will run.
-/
namespace Pipewright

/-! ### Operators of conditions -/

theorem Operator.parse?_not_empty : parse? "not_empty" ≠ none := by decide

namespace Condition

/-- The operators that a condition asks for and that there are not are found, at a place or below it. -/
def FoundIn (c : Condition) (findings : List Finding) (path : Path) : Prop :=
  ∀ name, c.Compares name → Operator.parse? name = none →
    ∃ below, ⟨path ++ below, .unknownOperator name⟩ ∈ findings

variable {c : Condition} {conditions : List Condition} {findings more : List Finding} {path : Path}

theorem FoundIn.mono (h : c.FoundIn findings path) (hsub : findings ⊆ more) : c.FoundIn more path := by
  intro name hname hparse
  obtain ⟨below, hfound⟩ := h name hname hparse
  exact ⟨below, hsub hfound⟩

theorem FoundIn.of_index {i : Nat} (h : c.FoundIn findings (path.index i)) : c.FoundIn findings path := by
  intro name hname hparse
  obtain ⟨below, hfound⟩ := h name hname hparse
  exact ⟨.index i :: below, List.append_cons path (.index i) below ▸ hfound⟩

theorem foundIn_all (h : ∀ c ∈ conditions, c.FoundIn findings path) : FoundIn (.all conditions) findings path := by
  intro name hname
  cases hname with
  | all hc hname => exact h _ hc name hname

theorem foundIn_any (h : ∀ c ∈ conditions, c.FoundIn findings path) : FoundIn (.any conditions) findings path := by
  intro name hname
  cases hname with
  | any hc hname => exact h _ hc name hname

theorem foundIn_list (h : ∀ c ∈ conditions, c.FoundIn findings path) : FoundIn (.list conditions) findings path := by
  intro name hname
  cases hname with
  | list hc hname => exact h _ hc name hname

theorem foundIn_negate (h : c.FoundIn findings path) : FoundIn (.negate c) findings path := by
  intro name hname
  cases hname with
  | negate hname => exact h name hname

theorem foundIn_compare {c : Comparison}
    (h : Operator.parse? c.operator = none → ⟨path, .unknownOperator c.operator⟩ ∈ findings) :
    FoundIn (.compare c) findings path := by
  intro name hname hparse
  cases hname with
  | compare heq =>
    subst heq
    exact ⟨[], (List.append_nil path).symm ▸ h hparse⟩

end Condition

/-- The checks of an item of a list are among those of the list, at the place of the item. -/
theorem each_subset (path : Path) (check : Inspection → Path → List Finding) {items : List Inspection} {i : Nat}
    {item : Inspection} (h : items[i]? = some item) :
    check item (path.index i) ⊆ Inspection.each path items check := by
  have hindexed : (item, i) ∈ items.zipIdx := List.mem_zipIdx_iff_getElem?.mpr h
  exact fun finding hfinding => List.mem_flatMap.mpr ⟨_, hindexed, hfinding⟩

theorem Sound.mono {findings more : List Finding} (h : Sound more) (hsub : findings ⊆ more) : Sound findings :=
  fun finding hfinding => h finding (hsub hfinding)

namespace Reading

/-- Which of its four forms an object is read in: the first one in which it can be. -/
theorem cases_of_conditionOfEntries {record : Record} {c : Condition} (h : conditionOfEntries record = .ok c) :
    (∃ conditions, (required record "and" >>= Reading.conditions) = .ok conditions ∧ c = .all conditions) ∨
    ¬ Readable (required record "and" >>= Reading.conditions) ∧
      ((∃ conditions, (required record "or" >>= Reading.conditions) = .ok conditions ∧ c = .any conditions) ∨
      ¬ Readable (required record "or" >>= Reading.conditions) ∧
        ((∃ d, (required record "not" >>= Reading.condition) = .ok d ∧ c = .negate d) ∨
        ¬ Readable (required record "not" >>= Reading.condition) ∧
          ∃ asked, comparison record = .ok asked ∧ c = .compare asked)) := by
  rw [conditionOfEntries] at h
  dsimp only at h
  cases hand : required record "and" >>= Reading.conditions with
  | ok conditions =>
    simp only [hand] at h
    exact .inl ⟨conditions, rfl, (Except.ok.inj h).symm⟩
  | error =>
    refine .inr ⟨not_readable_error _, ?_⟩
    cases hor : required record "or" >>= Reading.conditions with
    | ok conditions =>
      simp only [hand, hor] at h
      exact .inl ⟨conditions, rfl, (Except.ok.inj h).symm⟩
    | error =>
      refine .inr ⟨not_readable_error _, ?_⟩
      cases hnot : required record "not" >>= Reading.condition with
      | ok d =>
        simp only [hand, hor, hnot] at h
        exact .inl ⟨d, rfl, (Except.ok.inj h).symm⟩
      | error =>
        refine .inr ⟨not_readable_error _, ?_⟩
        cases hcomparison : comparison record with
        | ok asked =>
          simp only [hand, hor, hnot, hcomparison] at h
          exact ⟨asked, rfl, (Except.ok.inj h).symm⟩
        | error =>
          simp only [hand, hor, hnot, hcomparison] at h
          cases h

end Reading

/-- What the checks find of the operators in what a value is read as, alone or as a list of conditions. -/
structure FindsOperators (v : Value) : Prop where
  condition : ∀ path c, Sound (v.inspection.condition path) → v.reading.condition = .ok c →
    c.FoundIn (v.inspection.condition path) path
  conditions : ∀ path conditions, Sound (v.inspection.condition path) → v.reading.conditions = .ok conditions →
    ∀ c ∈ conditions, c.FoundIn (v.inspection.condition path) path

section

variable {fields : Fields Value} {path : Path} {name : String}

theorem not_readable_of_absent {α : Type} {next : Reading → Except DecodeError α}
    (h : Fields.get? name fields = none) : ¬ Readable (Reading.required (readings fields) name >>= next) := by
  rw [Reading.required, Fields.get?_map, h]
  exact not_readable_error _

/-- The operator of a comparison is found where the comparison stands. -/
theorem foundIn_comparison {asked : Comparison} (hread : Reading.comparison (readings fields) = .ok asked) :
    Condition.FoundIn (.compare asked) (if Fields.contains "field" (inspected fields) then
      match Inspection.valueAt (inspected fields) "operator" with
      | none => []
      | some (.str name) => Inspection.findIf (Operator.parse? name).isNone path (.unknownOperator name)
      | some _ => [⟨path, .notText "operator"⟩]
      else [⟨path, .shapelessCondition⟩]) path := by
  obtain ⟨r, hfield, hread⟩ := exists_ok_of_bind hread
  obtain ⟨v, hget, rfl⟩ := exists_of_required hfield
  have hcontains : Fields.contains "field" fields = true := by rw [Fields.contains, hget]; rfl
  rw [Fields.contains_map, hcontains, if_pos rfl, valueAt_inspected]
  rw [Fields.get?_map] at hread
  refine Condition.foundIn_compare fun hparse => ?_
  cases hoperator : Fields.get? "operator" fields with
  | none =>
    -- Without an operator the comparison asks whether the field is not empty, and that operator there is.
    rw [hoperator] at hread
    cases hread
    exact absurd hparse Operator.parse?_not_empty
  | some w =>
    rw [hoperator] at hread
    obtain ⟨operator, htext, hread⟩ := exists_ok_of_bind hread
    cases hread
    rw [Reading.text, Value.reading_value] at htext
    cases w with
    | str s =>
      obtain rfl := Except.ok.inj htext
      dsimp only at hparse ⊢
      rw [hparse]
      exact List.mem_cons_self
    | _ => cases htext

/-- In whichever form an object is read as a condition, the checks have looked at the same form. -/
theorem foundIn_conditionOf (hfields : ∀ entry ∈ fields, FindsOperators entry.2)
    (h : Sound (Inspection.conditionOf (inspected fields) path)) {c : Condition}
    (hread : Reading.conditionOfEntries (readings fields) = .ok c) :
    c.FoundIn (Inspection.conditionOf (inspected fields) path) path := by
  have hforms := Reading.cases_of_conditionOfEntries hread
  have hgroup {name : String} {items : List Value} {conditions : List Condition}
      (hget : Fields.get? name fields = some (.arr items))
      (hsound : Sound ((Value.arr items).inspection.condition path))
      (hread : (Reading.required (readings fields) name >>= Reading.conditions) = .ok conditions) :
      ∀ c ∈ conditions, c.FoundIn ((Value.arr items).inspection.condition path) path := by
    rw [required_readings hget] at hread
    exact (hfields _ (Fields.mem_of_get? hget)).conditions path conditions hsound hread
  have hreadable {name : String} {items : List Value} (hget : Fields.get? name fields = some (.arr items))
      (hsound : Sound ((Value.arr items).inspection.condition path)) :
      Readable (Reading.required (readings fields) name >>= Reading.conditions) := by
    rw [required_readings hget]
    exact (readable_condition _ path hsound).2 items rfl
  rw [Inspection.conditionOf] at h ⊢
  simp only [Fields.get?_map] at h ⊢
  cases hand : Fields.get? "and" fields with
  | some v =>
    simp only [hand, Option.map_some, Option.some_or, Value.inspection_value] at h ⊢
    cases v with
    | arr items =>
      rcases hforms with ⟨conditions, hconditions, rfl⟩ | ⟨hnot, -⟩
      · exact Condition.foundIn_all (hgroup hand h hconditions)
      · exact absurd (hreadable hand h) hnot
    | _ => simp [Problem.isWarning] at h
  | none =>
    obtain ⟨_, hread, -⟩ | ⟨-, hforms⟩ := hforms
    · exact absurd ⟨_, hread⟩ (not_readable_of_absent hand)
    cases hor : Fields.get? "or" fields with
    | some v =>
      simp only [hand, hor, Option.map_some, Option.map_none, Option.none_or, Value.inspection_value] at h ⊢
      cases v with
      | arr items =>
        rcases hforms with ⟨conditions, hconditions, rfl⟩ | ⟨hnot, -⟩
        · exact Condition.foundIn_any (hgroup hor h hconditions)
        · exact absurd (hreadable hor h) hnot
      | _ => simp [Problem.isWarning] at h
    | none =>
      obtain ⟨_, hread, -⟩ | ⟨-, hforms⟩ := hforms
      · exact absurd ⟨_, hread⟩ (not_readable_of_absent hor)
      simp only [hand, hor, Option.map_none, Option.none_or] at h ⊢
      cases hnegated : Fields.get? "not" fields with
      | some v =>
        simp only [hnegated, Option.map_some] at h ⊢
        have hfinds := hfields _ (Fields.mem_of_get? hnegated)
        rcases hforms with ⟨d, hd, rfl⟩ | ⟨hnot, -⟩
        · rw [required_readings hnegated] at hd
          exact Condition.foundIn_negate (hfinds.condition path d h hd)
        · rw [required_readings hnegated] at hnot
          exact absurd (readable_condition v path h).1 hnot
      | none =>
        obtain ⟨_, hread, -⟩ | ⟨-, asked, hasked, rfl⟩ := hforms
        · exact absurd ⟨_, hread⟩ (not_readable_of_absent hnegated)
        simp only [Option.map_none]
        exact foundIn_comparison hasked

end

/-- Operators that there are not are found in every condition that has no errors. -/
theorem findsOperators (v : Value) : FindsOperators v := by
  induction v using Value.induction with
  | null | bool | num | str =>
    constructor <;> intro path _ h <;> simp [Value.inspection, Value.fold, Inspection.leaf, Problem.isWarning] at h
  | arr items ih =>
    have hconditions (path : Path) (conditions : List Condition)
        (h : Sound ((Value.arr items).inspection.condition path))
        (hread : (items.map Value.reading).mapM Reading.condition = .ok conditions) :
        ∀ c ∈ conditions, c.FoundIn ((Value.arr items).inspection.condition path) path := by
      intro c hc
      obtain ⟨r, hr, hcondition⟩ := exists_of_mem_mapM hread c hc
      obtain ⟨item, hitem, rfl⟩ := List.mem_map.mp hr
      obtain ⟨i, hi⟩ := List.mem_iff_getElem?.mp hitem
      have hindexed : (items.map Value.inspection)[i]? = some item.inspection := by rw [List.getElem?_map, hi]; rfl
      rw [Value.inspection_arr] at h ⊢
      have hsub := each_subset path Inspection.condition hindexed
      exact ((ih item hitem).condition _ c (h.mono hsub) hcondition).of_index.mono hsub
    constructor
    · intro path c h hread
      rw [Value.reading_arr] at hread
      change Reading.conditionOfItems _ = _ at hread
      by_cases hlength : items.length = 1
      · -- A list of one condition is read as a comparison by an operator that there is.
        obtain ⟨item, rfl⟩ := List.length_eq_one_iff.mp hlength
        have hcomparison := Condition.decode_singleton item
        rw [Condition.decode_arr] at hcomparison
        obtain rfl := Except.ok.inj (hread.symm.trans hcomparison)
        exact Condition.foundIn_compare fun hparse => absurd hparse Operator.parse?_not_empty
      · have hcondition : ∀ item ∈ items, item.IsCondition := by
          intro item hitem
          rw [Value.inspection_arr] at h
          obtain ⟨place, hplace⟩ := sound_each h _ (List.mem_map_of_mem hitem)
          exact (readable_condition item place hplace).1
        obtain ⟨e, he⟩ := Condition.not_comparison hcondition hlength
        rw [Reading.conditionOfItems, he] at hread
        dsimp only at hread
        cases hmap : (items.map Value.reading).mapM Reading.condition with
        | error other =>
          rw [hmap] at hread
          cases hread
        | ok conditions =>
          rw [hmap] at hread
          cases hread
          exact Condition.foundIn_list (hconditions path conditions h hmap)
    · intro path conditions h hread
      rw [Value.reading_arr] at hread
      exact hconditions path conditions h hread
  | obj fields ih =>
    constructor
    · intro path c h hread
      rw [Value.inspection_obj] at h ⊢
      rw [Value.reading_obj] at hread
      exact foundIn_conditionOf ih h hread
    · intro path conditions h hread
      rw [Value.reading_obj] at hread
      cases hread

/-! ### Declared steps -/

/-- A step is what some value is read as, and what the checks find of that value, where the step stands, is among
these findings. -/
def Step.CheckedIn (s : Step) (rules : Rules) (findings : List Finding) (path : Path) : Prop :=
  ∃ (v : Value) (inner : Bool) (depth : Nat), v.reading.step inner = .ok s ∧
    v.inspection.step rules path depth ⊆ findings

/-- All steps of a list are checked where they stand. -/
def Step.AllCheckedIn (steps : List Step) (rules : Rules) (findings : List Finding) (path : Path) : Prop :=
  ∀ i (s : Step), steps[i]? = some s → s.CheckedIn rules findings (path.index i)

theorem getElem?_of_mapM {α β : Type} {f : α → Except DecodeError β} {items : List α} {results : List β}
    (h : items.mapM f = .ok results) {i : Nat} {b : β} (hb : results[i]? = some b) :
    ∃ a, items[i]? = some a ∧ f a = .ok b := by
  induction items generalizing results i with
  | nil =>
    cases h
    cases hb
  | cons first rest ih =>
    rw [List.mapM_cons] at h
    obtain ⟨b, hfirst, h⟩ := exists_ok_of_bind h
    obtain ⟨others, hothers, h⟩ := exists_ok_of_bind h
    cases h
    cases i with
    | zero => exact ⟨first, rfl, Option.some.inj hb ▸ hfirst⟩
    | succ i => exact ih hothers hb

section

variable {fields : Fields Value} {rules : Rules} {findings : List Finding} {path : Path} {depth : Nat} {key : Key}
  { mandatory inner : Bool} {steps : List Step} {s : Step} {kind : StepKind}

theorem allCheckedIn_nil : Step.AllCheckedIn [] rules findings path := nofun

/-- The steps that a value is read as are checked one by one, since a list that is nested too deep has an error. -/
theorem allCheckedIn_of_steps {v : Value} (hread : v.reading.steps inner = .ok steps) (hsound : Sound findings)
    (hsub : v.inspection.steps rules path depth ⊆ findings) : Step.AllCheckedIn steps rules findings path := by
  cases v with
  | arr items =>
    rw [Value.reading_arr] at hread
    change (items.map Value.reading).mapM (fun r => r.step inner) = .ok steps at hread
    rw [Value.inspection_arr] at hsub
    change (if rules.maxNesting < depth then _ else _) ⊆ findings at hsub
    split at hsub
    · have hdeep : Sound [⟨path, .tooDeep rules.maxNesting⟩] := hsound.mono hsub
      simp [Problem.isWarning] at hdeep
    · intro i s hs
      obtain ⟨r, hr, hstep⟩ := getElem?_of_mapM hread hs
      obtain ⟨item, hitem, rfl⟩ := Option.map_eq_some_iff.mp (List.getElem?_map ▸ hr)
      have hindexed : (items.map Value.inspection)[i]? = some item.inspection := by rw [List.getElem?_map, hitem]; rfl
      have hitemSub := each_subset path (fun item path => item.step rules path depth) hindexed
      exact ⟨item, inner, depth, hstep, List.Subset.trans hitemSub hsub⟩
  | obj => rw [Value.reading_obj] at hread; cases hread
  | _ => cases hread

/-- The steps of a list inside a step are checked below the key of the list. -/
theorem allCheckedIn_of_stepList {v : Value} (hget : Fields.get? key.name fields = some v)
    (hread : v.reading.steps inner = .ok steps) (hsound : Sound findings)
    (hsub : Inspection.stepList rules (inspected fields) path depth key mandatory ⊆ findings) :
    Step.AllCheckedIn steps rules findings (path.key key) := by
  rw [Inspection.stepList, Fields.get?_map, hget] at hsub
  simp only [Option.map_some, Value.inspection_value] at hsub
  cases v with
  | arr items =>
    dsimp only at hsub
    exact allCheckedIn_of_steps hread hsound (List.append_subset.mp hsub).2
  | obj => rw [Value.reading_obj] at hread; cases hread
  | _ => cases hread

theorem allCheckedIn_of_required {r : Reading} (hrequired : Reading.required (readings fields) key.name = .ok r)
    (hread : r.steps inner = .ok steps) (hsound : Sound findings)
    (hsub : Inspection.stepList rules (inspected fields) path depth key mandatory ⊆ findings) :
    Step.AllCheckedIn steps rules findings (path.key key) := by
  obtain ⟨v, hget, rfl⟩ := exists_of_required hrequired
  exact allCheckedIn_of_stepList hget hread hsound hsub

theorem allCheckedIn_of_present {r : Reading} (hpresent : Reading.present? (readings fields) key.name = some r)
    (hread : r.steps inner = .ok steps) (hsound : Sound findings)
    (hsub : Inspection.stepList rules (inspected fields) path depth key mandatory ⊆ findings) :
    Step.AllCheckedIn steps rules findings (path.key key) := by
  obtain ⟨v, hget, rfl⟩ := exists_of_present hpresent
  exact allCheckedIn_of_stepList hget hread hsound hsub

theorem allCheckedIn_of_optionalSteps (hread : Reading.optionalSteps (readings fields) key.name = .ok steps)
    (hsound : Sound findings)
    (hsub : Inspection.stepList rules (inspected fields) path depth key mandatory ⊆ findings) :
    Step.AllCheckedIn steps rules findings (path.key key) := by
  rw [Reading.optionalSteps] at hread
  cases hpresent : Reading.present? (readings fields) key.name with
  | none =>
    rw [hpresent] at hread
    cases hread
    exact allCheckedIn_nil
  | some r =>
    rw [hpresent] at hread
    exact allCheckedIn_of_present hpresent hread hsound hsub

/-- The steps of a pipeline are checked below its list. -/
theorem allCheckedIn_of_pipeline {v : Value} {pipeline : Pipeline} (hread : v.reading.pipeline inner = .ok pipeline)
    (hsound : Sound findings) (hsub : v.inspection.pipeline rules path depth ⊆ findings) :
    Step.AllCheckedIn pipeline.steps rules findings (path.key .steps) := by
  cases v with
  | obj fields =>
    rw [Value.reading_obj] at hread
    rw [Value.inspection_obj] at hsub
    change Inspection.pipelineOf (inspected fields) rules path depth ⊆ findings at hsub
    obtain ⟨r, hrequired, hsteps⟩ := (Reading.parts_of_pipelineOf hread).2
    obtain ⟨list, hget, rfl⟩ := exists_of_required hrequired
    rw [Inspection.pipelineOf] at hsub
    have hlist := (List.append_subset.mp hsub).2
    rw [Fields.get?_map, hget] at hlist
    simp only [Option.map_some, Value.inspection_value] at hlist
    cases list with
    | arr items =>
      cases items with
      | nil =>
        have hempty := hsound.mono hlist
        simp [Problem.isWarning] at hempty
      | cons first rest => exact allCheckedIn_of_steps hsteps hsound hlist
    | obj => rw [Value.reading_obj] at hsteps; cases hsteps
    | _ => cases hsteps
  | arr items =>
    have hother := hsound.mono hsub
    simp [Value.inspection_arr, Inspection.ofItems, Problem.isWarning] at hother
  | _ =>
    have hother : Sound [⟨path, .notPipeline⟩] := hsound.mono hsub
    simp [Problem.isWarning] at hother

/-- The checks of a kind are among those of a step of this kind. -/
theorem ofKind_subset (hkind : (Value.obj fields).stepKind? = some kind) :
    Inspection.ofKind rules (inspected fields) path depth kind ⊆
      Inspection.stepOf (inspected fields) rules path depth := by
  obtain ⟨name, hname, hparse⟩ := Option.bind_eq_some_iff.mp hkind
  obtain ⟨v, hget, hv⟩ := Option.bind_eq_some_iff.mp hname
  have hfield : Fields.get? "type" fields = some v := hget
  rw [Inspection.stepOf, valueAt_inspected, hfield]
  cases v with
  | str s =>
    obtain rfl := Option.some.inj hv
    dsimp only
    rw [hparse]
    exact List.subset_append_right _ _
  | _ => cases hv

/-- A step that is checked is read from an object of its kind, the checks of which are made. -/
theorem Step.CheckedIn.exists_fields (h : s.CheckedIn rules findings path) (hsound : Sound findings) :
    ∃ fields kind depth, Reading.stepOf (readings fields) kind = .ok s ∧
      Inspection.ofKind rules (inspected fields) path depth kind ⊆ findings := by
  obtain ⟨v, inner, depth, hread, hsub⟩ := h
  cases v with
  | obj fields =>
    rw [Value.reading_obj] at hread
    rw [Value.inspection_obj] at hsub
    change Reading.stepOfEntries (readings fields) inner = .ok s at hread
    obtain ⟨kind, hkind, -, -, hkindRead⟩ := exists_kind_of_sound (hsound.mono hsub)
    rw [hkindRead] at hread
    exact ⟨fields, kind, depth, hread, List.Subset.trans (ofKind_subset hkind) hsub⟩
  | arr items =>
    have hother := hsound.mono hsub
    simp [Value.inspection_arr, Inspection.ofItems, Problem.isWarning] at hother
  | _ =>
    have hother : Sound [⟨path, .notStep⟩] := hsound.mono hsub
    simp [Problem.isWarning] at hother

/-- The lists of a step are checked where the step is, each below its keys. -/
theorem Step.CheckedIn.children (h : s.CheckedIn rules findings path) (hsound : Sound findings) :
    ∀ list ∈ s.children, Step.AllCheckedIn list.2 rules findings (path ++ list.1) := by
  obtain ⟨fields, kind, depth, hread, hsub⟩ := h.exists_fields hsound
  cases kind with
  | ability =>
    rw [Reading.children_of_ability hread]
    exact List.forall_mem_nil _
  | transform =>
    rw [Reading.children_of_transform hread]
    exact List.forall_mem_nil _
  | conditional =>
    rw [Inspection.ofKind, List.append_subset, List.append_subset] at hsub
    obtain ⟨⟨-, hthen⟩, helse⟩ := hsub
    obtain ⟨condition, whenTrue, whenFalse, output, rfl, htrue, hfalse⟩ := Reading.exists_of_conditional hread
    exact List.forall_mem_cons.mpr ⟨allCheckedIn_of_optionalSteps htrue hsound hthen,
      List.forall_mem_singleton.mpr (allCheckedIn_of_optionalSteps hfalse hsound helse)⟩
  | loop =>
    rw [Inspection.ofKind, List.append_subset] at hsub
    obtain ⟨input, body, itemVar, indexVar, collect, output, rfl, r, hrequired, hsteps⟩ := Reading.exists_of_loop hread
    exact List.forall_mem_singleton.mpr (allCheckedIn_of_required hrequired hsteps hsound hsub.2)
  | parallel =>
    rw [Inspection.ofKind, List.append_subset, List.append_subset] at hsub
    obtain ⟨branches, output, rfl, r, hrequired, hbranches⟩ := Reading.exists_of_parallel hread
    refine List.forall_mem_singleton.mpr ?_
    rcases hbranches with ⟨-, rfl⟩ | ⟨-, hsteps⟩
    · exact allCheckedIn_nil
    · exact allCheckedIn_of_required hrequired hsteps hsound hsub.1.2
  | tryCatch =>
    rw [Inspection.ofKind, List.append_subset, List.append_subset] at hsub
    obtain ⟨⟨htry, hcatch⟩, hfinally⟩ := hsub
    obtain ⟨attempt, recovery, always, output, rfl, ⟨r, hrequired, hsteps⟩, hrecovery, halways⟩ :=
      Reading.exists_of_tryCatch hread
    refine List.forall_mem_append.mpr ⟨List.forall_mem_cons.mpr ⟨?_, fun list hlist => ?_⟩,
      List.forall_mem_singleton.mpr ?_⟩
    · exact allCheckedIn_of_required hrequired hsteps hsound htry
    · obtain ⟨steps, hsome, rfl⟩ := Option.map_eq_some_iff.mp (Option.mem_toList.mp hlist)
      obtain ⟨r, hpresent, hsteps⟩ := hrecovery steps hsome
      exact allCheckedIn_of_present hpresent hsteps hsound hcatch
    · exact allCheckedIn_of_optionalSteps halways hsound hfinally
  | subPipeline =>
    rw [Inspection.ofKind, List.append_subset] at hsub
    obtain ⟨pipeline, inputs, output, rfl, r, hrequired, hnested⟩ := Reading.exists_of_subPipeline hread
    obtain ⟨v, hget, rfl⟩ := exists_of_required hrequired
    have hpipeline := hsub.1
    rw [Fields.get?_map, hget] at hpipeline
    refine List.forall_mem_singleton.mpr ?_
    rw [← Path.key_key]
    exact allCheckedIn_of_pipeline hnested hsound hpipeline

end

/-- Every step that is declared in an accepted definition, at whatever level, has been checked where it stands. -/
theorem Rules.checkedIn_of_hasStep {rules : Rules} {definition : Value} {pipeline : Pipeline}
    (haccepts : rules.accepts definition = true) (hdecode : PipelineOf.decode definition = .ok pipeline) {s : Step}
    {path : Path} {depth : Nat} (h : pipeline.top.HasStep s path depth) :
    s.CheckedIn rules (rules.findings definition) path := by
  have hsound := accepts_iff.mp haccepts
  have hlists {inner : PlacedList} (h : pipeline.top.Within inner) :
      Step.AllCheckedIn inner.steps rules (rules.findings definition) inner.path := by
    induction h with
    | self => exact allCheckedIn_of_pipeline hdecode hsound (List.Subset.refl _)
    | inside _ hs hlist ih => exact (ih _ _ hs).children hsound _ hlist
  obtain ⟨inner, i, hinner, hs, rfl, -⟩ := h
  exact hlists hinner i s hs

namespace Reading

variable {record : Record} {s : Step} {kind : StepKind}

/-- A step is of the kind that it is read as. -/
theorem kind_of_stepOf (h : stepOf record kind = .ok s) : s.kind = kind := by
  cases kind with
  | ability =>
    obtain ⟨_, -, h⟩ := exists_ok_of_bind h
    obtain ⟨_, -, h⟩ := exists_ok_of_bind h
    exact Except.ok.inj h ▸ rfl
  | transform =>
    obtain ⟨_, -, h⟩ := exists_ok_of_bind h
    obtain ⟨_, -, h⟩ := exists_ok_of_bind h
    obtain ⟨_, -, h⟩ := exists_ok_of_bind h
    obtain ⟨_, -, h⟩ := exists_ok_of_bind h
    exact Except.ok.inj h ▸ rfl
  | conditional =>
    obtain ⟨_, _, _, _, rfl, -⟩ := exists_of_conditional h
    rfl
  | loop =>
    obtain ⟨_, _, _, _, _, _, rfl, -⟩ := exists_of_loop h
    rfl
  | parallel =>
    obtain ⟨_, _, rfl, -⟩ := exists_of_parallel h
    rfl
  | tryCatch =>
    obtain ⟨_, _, _, _, rfl, -⟩ := exists_of_tryCatch h
    rfl
  | subPipeline =>
    obtain ⟨_, _, _, rfl, -⟩ := exists_of_subPipeline h
    rfl

theorem operation_of_transform {operation : String} {input : Value} {params : Fields Value} {output : Option String}
    (h : stepOf record .transform = .ok (.transform operation input params output)) :
    requiredText record "operation" = .ok operation := by
  obtain ⟨_, -, h⟩ := exists_ok_of_bind h
  obtain ⟨_, hoperation, h⟩ := exists_ok_of_bind h
  obtain ⟨_, -, h⟩ := exists_ok_of_bind h
  obtain ⟨_, -, h⟩ := exists_ok_of_bind h
  cases h
  exact hoperation

theorem condition_of_conditional {condition : Condition} {whenTrue whenFalse : List Step} {output : Option String}
    (h : stepOf record .conditional = .ok (.conditional condition whenTrue whenFalse output)) :
    ∃ r, required record "condition" = .ok r ∧ r.condition = .ok condition := by
  obtain ⟨r, hrequired, h⟩ := exists_ok_of_bind h
  obtain ⟨_, hcondition, h⟩ := exists_ok_of_bind h
  obtain ⟨_, -, h⟩ := exists_ok_of_bind h
  obtain ⟨_, -, h⟩ := exists_ok_of_bind h
  obtain ⟨_, -, h⟩ := exists_ok_of_bind h
  cases h
  exact ⟨r, hrequired, hcondition⟩

end Reading

namespace Step.CheckedIn

variable {rules : Rules} {findings : List Finding} {path : Path} {output : Option String}

/-- A transform step asks for a transform that the checks know of, or it is found. -/
theorem transform_found {operation : String} {input : Value} {params : Fields Value} {names : List String}
    (h : (Step.transform operation input params output).CheckedIn rules findings path) (hsound : Sound findings)
    (hrules : rules.transforms = some names) (habsent : operation ∉ names) :
    ⟨path, .unknownTransform operation⟩ ∈ findings := by
  obtain ⟨fields, kind, depth, hread, hsub⟩ := h.exists_fields hsound
  obtain rfl : StepKind.transform = kind := Reading.kind_of_stepOf hread
  obtain ⟨r, hrequired, htext⟩ := exists_ok_of_bind (Reading.operation_of_transform hread)
  obtain ⟨v, hget, rfl⟩ := exists_of_required hrequired
  rw [Reading.text, Value.reading_value] at htext
  rw [Inspection.ofKind, List.append_subset, List.append_subset, valueAt_inspected, hget] at hsub
  cases v with
  | str s =>
    obtain rfl := Except.ok.inj htext
    have hunknown : rules.transforms.any (!·.contains s) = true := by simp [hrules, habsent]
    refine hsub.1.1 ?_
    dsimp only
    rw [hunknown]
    exact List.mem_cons_self
  | _ => cases htext

/-- The operators that the condition of a step asks for, and that there are not, are found in it. -/
theorem condition_found {condition : Condition} {whenTrue whenFalse : List Step}
    (h : (Step.conditional condition whenTrue whenFalse output).CheckedIn rules findings path)
    (hsound : Sound findings) : condition.FoundIn findings (path.key .condition) := by
  obtain ⟨fields, kind, depth, hread, hsub⟩ := h.exists_fields hsound
  obtain rfl : StepKind.conditional = kind := Reading.kind_of_stepOf hread
  obtain ⟨r, hrequired, hcondition⟩ := Reading.condition_of_conditional hread
  obtain ⟨v, hget, rfl⟩ := exists_of_required hrequired
  rw [Inspection.ofKind, List.append_subset, List.append_subset, Fields.get?_map, hget] at hsub
  exact ((findsOperators v).condition _ condition (hsound.mono hsub.1.1) hcondition).mono hsub.1.1

end Step.CheckedIn

end Pipewright
