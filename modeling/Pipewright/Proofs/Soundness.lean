import Pipewright.Proofs.ValueInduction

/-!
# What checks promise to readers

The checks of a definition and its reading go over the same fields in two ways of their own. Here they are compared
field by field: where the checks find nothing that would refuse a definition, there is something that can be read.
-/
namespace Pipewright

/-! ### Readable values -/

/-- A reading that gives something. -/
def Readable {α : Type} (result : Except DecodeError α) : Prop := ∃ a, result = .ok a

section

variable {α β : Type}

@[simp] theorem readable_ok (a : α) : Readable (.ok a) := ⟨a, rfl⟩

@[simp] theorem not_readable_error (e : DecodeError) : ¬ Readable (.error e : Except DecodeError α) :=
  fun ⟨_, h⟩ => nomatch h

theorem not_readable_iff {result : Except DecodeError α} : ¬ Readable result ↔ ∃ e, result = .error e := by
  cases result with
  | ok a => simp
  | error e => simp

@[simp] theorem readable_map (f : α → β) (result : Except DecodeError α) :
    Readable (result.map f) ↔ Readable result := by
  cases result <;> simp [Except.map]

theorem readable_bind {result : Except DecodeError α} {next : α → Except DecodeError β} :
    Readable (result >>= next) ↔ ∃ a, result = .ok a ∧ Readable (next a) := by
  cases result with
  | ok a => simp [bind, Except.bind]
  | error e => simp [bind, Except.bind]

theorem exists_ok_of_bind {result : Except DecodeError α} {next : α → Except DecodeError β} {b : β}
    (h : result >>= next = .ok b) : ∃ a, result = .ok a ∧ next a = .ok b := by
  cases result with
  | ok a => exact ⟨a, rfl, h⟩
  | error e => cases h

/-- Parts that are read on their own are all readable or the whole is not. -/
theorem readable_bind_and {result : Except DecodeError α} {next : α → Except DecodeError β} {P : Prop}
    (h : ∀ a, Readable (next a) ↔ P) : Readable (result >>= next) ↔ Readable result ∧ P := by
  rw [readable_bind]
  constructor
  · rintro ⟨a, ha, hnext⟩
    exact ⟨⟨a, ha⟩, (h a).mp hnext⟩
  · rintro ⟨⟨a, ha⟩, hP⟩
    exact ⟨a, ha, (h a).mpr hP⟩

theorem readable_bind_bind_and {γ : Type} {result : Except DecodeError α} {middle : α → Except DecodeError β}
    {next : β → Except DecodeError γ} {P : Prop} (h : ∀ b, Readable (next b) ↔ P) :
    Readable (result >>= fun a => middle a >>= next) ↔ Readable (result >>= middle) ∧ P := by
  rw [← readable_bind_and h, bind_assoc]

theorem readable_bind_pure {result : Except DecodeError α} {f : α → β} :
    Readable (result >>= fun a => pure (f a)) ↔ Readable result :=
  (readable_bind_and fun _ => iff_true_intro (readable_ok _)).trans (and_iff_left trivial)

theorem readable_bind_bind_pure {γ : Type} {result : Except DecodeError α} {middle : α → Except DecodeError β}
    {f : β → γ} : Readable (result >>= fun a => middle a >>= fun b => pure (f b)) ↔ Readable (result >>= middle) :=
  (readable_bind_bind_and fun _ => iff_true_intro (readable_ok _)).trans (and_iff_left trivial)

theorem readable_mapM {f : α → Except DecodeError β} {items : List α} :
    Readable (items.mapM f) ↔ ∀ item ∈ items, Readable (f item) := by
  induction items with
  | nil => simp [pure, Except.pure]
  | cons item rest ih =>
    rw [List.mapM_cons, List.forall_mem_cons, ← ih]
    exact readable_bind_and fun _ => readable_bind_pure

end

/-! ### Findings that refuse nothing -/

/-- Nothing is found that refuses a definition. -/
def Sound (findings : List Finding) : Prop := ∀ finding ∈ findings, finding.problem.isWarning = true

@[simp] theorem sound_nil : Sound [] := nofun

@[simp] theorem sound_append {first second : List Finding} :
    Sound (first ++ second) ↔ Sound first ∧ Sound second := by
  simp [Sound, or_imp, forall_and]

@[simp] theorem sound_singleton {path : Path} {problem : Problem} :
    Sound [⟨path, problem⟩] ↔ problem.isWarning = true := by
  simp [Sound]

@[simp] theorem sound_findIf {found : Bool} {path : Path} {problem : Problem} :
    Sound (Inspection.findIf found path problem) ↔ (found = true → problem.isWarning = true) := by
  cases found <;> simp [Inspection.findIf]

theorem sound_flatMap {α : Type} {items : List α} {check : α → List Finding} :
    Sound (items.flatMap check) ↔ ∀ item ∈ items, Sound (check item) := by
  simp only [Sound, List.mem_flatMap]
  exact ⟨fun h item hitem finding hfinding => h finding ⟨item, hitem, hfinding⟩,
    fun h finding ⟨item, hitem, hfinding⟩ => h item hitem finding hfinding⟩

theorem Rules.accepts_iff {rules : Rules} {definition : Value} :
    rules.accepts definition = true ↔ Sound (rules.findings definition) := by
  simp [accepts, errors, Sound]

/-- Each item of a list is checked at some place. -/
theorem sound_each {path : Path} {items : List Inspection} {check : Inspection → Path → List Finding}
    (h : Sound (Inspection.each path items check)) : ∀ item ∈ items, ∃ place, Sound (check item place) := by
  intro item hitem
  obtain ⟨i, hi, rfl⟩ := List.mem_iff_getElem.mp hitem
  have hindexed : (items[i], i) ∈ items.zipIdx := by
    rw [List.mem_zipIdx_iff_getElem?, List.getElem?_eq_getElem hi]
  exact ⟨path.index i, sound_flatMap.mp h _ hindexed⟩

/-! ### Fields -/

/-- The checks of the entries of an object. -/
abbrev inspected (fields : Fields Value) : Inspection.Entries :=
  fields.map fun entry => (entry.1, entry.2.inspection)

/-- The readings of the entries of an object. -/
abbrev readings (fields : Fields Value) : Reading.Record := fields.map fun entry => (entry.1, entry.2.reading)

section

variable {fields : Fields Value} {path : Path} {name : String}

@[simp] theorem valueAt_inspected : Inspection.valueAt (inspected fields) name = Fields.get? name fields := by
  rw [Inspection.valueAt, Fields.get?_map]
  cases Fields.get? name fields <;> simp

theorem required_readings {v : Value} (h : Fields.get? name fields = some v) :
    Reading.required (readings fields) name = .ok v.reading := by
  rw [Reading.required, Fields.get?_map, h]
  rfl

theorem present_readings : Reading.present? (readings fields) name =
    (Fields.get? name fields).bind fun v => if v.isNull then none else some v.reading := by
  rw [Reading.present?, Fields.get?_map]
  cases Fields.get? name fields with
  | none => rfl
  | some v => cases hnull : v.isNull <;> simp [Option.filter, hnull]

/-- A field that may be null is null, or a text that can be read. -/
theorem readable_text_of_sound (h : Sound (Inspection.optionalText (inspected fields) path name)) {v : Value}
    (hfield : Fields.get? name fields = some v) : v = .null ∨ Readable v.text := by
  rw [Inspection.optionalText, valueAt_inspected, hfield] at h
  cases v with
  | null => exact .inl rfl
  | str s => exact .inr ⟨s, rfl⟩
  | _ => simp [Problem.isWarning] at h

theorem readable_optionalText (h : Sound (Inspection.optionalText (inspected fields) path name)) :
    Readable (Reading.optionalText (readings fields) name) := by
  rw [Reading.optionalText, present_readings]
  cases hfield : Fields.get? name fields with
  | none => simp
  | some v =>
    rcases readable_text_of_sound h hfield with rfl | htext
    · simp [Value.isNull]
    · cases v with
      | str s => simp [Value.isNull, Reading.text, Value.text]
      | _ => simp [Value.text] at htext

/-- A field that goes by two names can be read unless both are there. -/
theorem readable_aliased {second : String} (hname : Sound (Inspection.optionalText (inspected fields) path name))
    (hsecond : Sound (Inspection.optionalText (inspected fields) path second)) :
    Readable (Reading.aliased (readings fields) name second >>= Reading.textOf) ↔
      ¬ (Fields.contains name fields ∧ Fields.contains second fields) := by
  have hread {name : String} (h : Sound (Inspection.optionalText (inspected fields) path name)) {v : Value}
      (hfield : Fields.get? name fields = some v) : Readable (Reading.textOf (some v.reading)) := by
    rcases readable_text_of_sound h hfield with rfl | htext
    · exact ⟨none, rfl⟩
    · cases v with
      | str s => exact ⟨some s, rfl⟩
      | _ => simp [Value.text] at htext
  rw [Reading.aliased, Fields.get?_map, Fields.get?_map, Fields.contains, Fields.contains]
  cases hfirst : Fields.get? name fields with
  | none =>
    cases hother : Fields.get? second fields with
    | none => simpa using ⟨none, rfl⟩
    | some v => simpa [bind, Except.bind] using hread hsecond hother
  | some v =>
    cases hother : Fields.get? second fields with
    | none => simpa [bind, Except.bind] using hread hname hfirst
    | some w => simp [bind, Except.bind]

theorem readable_optionalFields (h : Sound (Inspection.optionalObject (inspected fields) path name)) :
    Readable (Reading.optionalFields (readings fields) name) := by
  rw [Inspection.optionalObject, valueAt_inspected] at h
  rw [Reading.optionalFields, present_readings]
  cases hfield : Fields.get? name fields with
  | none => simp
  | some v =>
    rw [hfield] at h
    cases v with
    | null => simp [Value.isNull]
    | obj inner => simp [Value.isNull]
    | _ => simp [Problem.isWarning] at h

theorem exists_of_mandatoryField (h : Sound (Inspection.mandatoryField (inspected fields) path name)) :
    ∃ v, Fields.get? name fields = some v := by
  simpa [Inspection.mandatoryField, Problem.isWarning, Fields.contains, Option.ne_none_iff_exists'] using h

/-- A list of steps inside a step is there and its steps are sound, or it may be left out and is. -/
theorem sound_stepList {rules : Rules} {depth : Nat} {key : Key} { mandatory : Bool}
    (h : Sound (Inspection.stepList rules (inspected fields) path depth key mandatory)) :
    (∃ items, Fields.get? key.name fields = some (.arr items) ∧
      Sound ((Value.arr items).inspection.steps rules (path.key key) (depth + 1))) ∨
    mandatory = false ∧ (Fields.get? key.name fields = none ∨ Fields.get? key.name fields = some .null) := by
  rw [Inspection.stepList, Fields.get?_map] at h
  cases hfield : Fields.get? key.name fields with
  | none =>
    rw [hfield] at h
    exact .inr ⟨by simpa [Problem.isWarning] using h, .inl rfl⟩
  | some v =>
    rw [hfield] at h
    simp only [Option.map_some, Value.inspection_value] at h
    cases v with
    | null => exact .inr ⟨by simpa [Problem.isWarning] using h, .inr rfl⟩
    | arr items => exact .inl ⟨items, rfl, (sound_append.mp h).2⟩
    | _ => simp [Problem.isWarning] at h

end

/-! ### Limits and conditions -/

theorem readable_natural {v : Value} (h : Inspection.isNatural v) : Readable v.natural := by
  cases v with
  | num n =>
    cases n with
    | int n =>
      cases n with
      | ofNat n => exact ⟨n, rfl⟩
      | negSucc n => simp [Inspection.isNatural] at h
    | float => simp [Inspection.isNatural] at h
  | _ => simp [Inspection.isNatural] at h

theorem readable_limits {path : Path} {v : Value} (h : Sound (Inspection.limits path v)) :
    Readable (Limits.decode v) := by
  cases v with
  | obj fields =>
    have hfield : ∀ name ∈ ["max_steps", "max_depth", "timeout_secs"], ∀ standard,
        Readable (Fields.given Value.natural fields name standard) := by
      intro name hname standard
      have hsound := sound_flatMap.mp h name hname
      rw [Fields.given]
      cases hget : Fields.get? name fields with
      | none => exact readable_ok standard
      | some v =>
        rw [hget] at hsound
        exact readable_natural (by simpa [Problem.isWarning] using hsound)
    obtain ⟨maxSteps, hsteps⟩ := hfield "max_steps" (by simp) Limits.standard.maxSteps
    obtain ⟨maxDepth, hdepth⟩ := hfield "max_depth" (by simp) Limits.standard.maxDepth
    obtain ⟨timeoutSecs, htimeout⟩ := hfield "timeout_secs" (by simp) Limits.standard.timeoutSecs
    refine ⟨⟨maxSteps, maxDepth, timeoutSecs⟩, ?_⟩
    simp [Limits.decode, Value.record, hsteps, hdepth, htimeout, bind, Except.bind, pure, Except.pure]
  | _ => simp [Inspection.limits, Problem.isWarning] at h

/-- An object is a condition if any of its four forms can be read. -/
theorem readable_conditionOfEntries {record : Reading.Record}
    (h : Readable (Reading.required record "and" >>= Reading.conditions) ∨
      Readable (Reading.required record "or" >>= Reading.conditions) ∨
      Readable (Reading.required record "not" >>= Reading.condition) ∨ Readable (Reading.comparison record)) :
    Readable (Reading.conditionOfEntries record) := by
  rw [Reading.conditionOfEntries]
  dsimp only
  split
  · exact readable_ok _
  · exact readable_ok _
  · exact readable_ok _
  · exact readable_ok _
  next hand hor hnot hcomparison =>
    exfalso
    rcases h with ⟨a, ha⟩ | ⟨a, ha⟩ | ⟨a, ha⟩ | ⟨a, ha⟩
    · exact hand a ha
    · exact hor a ha
    · exact hnot a ha
    · exact hcomparison a ha

/-- A comparison needs a field, and an operator that is a text if there is one. -/
theorem readable_comparison {fields : Fields Value} {path : Path}
    (h : Sound (if Fields.contains "field" (inspected fields) then
      match Inspection.valueAt (inspected fields) "operator" with
      | none => []
      | some (.str name) => Inspection.findIf (Operator.parse? name).isNone path (.unknownOperator name)
      | some _ => [⟨path, .notText "operator"⟩]
      else [⟨path, .shapelessCondition⟩])) : Readable (Reading.comparison (readings fields)) := by
  rw [Fields.contains_map, valueAt_inspected] at h
  split at h
  next hcontains =>
    obtain ⟨v, hfield⟩ := Option.isSome_iff_exists.mp hcontains
    rw [Reading.comparison, required_readings hfield, Fields.get?_map]
    cases hoperator : Fields.get? "operator" fields with
    | none => exact ⟨_, rfl⟩
    | some w =>
      rw [hoperator] at h
      cases w with
      | str s => exact ⟨_, rfl⟩
      | _ => simp [Problem.isWarning] at h
  · simp [Problem.isWarning] at h

/-- Conditions without errors can be read, alone and as a list. -/
theorem readable_condition (v : Value) : ∀ path, Sound (v.inspection.condition path) →
    Readable v.reading.condition ∧ ∀ items, v = .arr items → Readable v.reading.conditions := by
  induction v using Value.induction with
  | null | bool | num | str =>
    intro path h
    simp [Value.inspection, Value.fold, Inspection.leaf, Problem.isWarning] at h
  | arr items ih =>
    intro path h
    rw [Value.inspection_arr] at h
    have hconditions : Readable (Value.arr items).reading.conditions := by
      rw [Value.reading_arr]
      refine readable_mapM.mpr fun reading hreading => ?_
      obtain ⟨item, hitem, rfl⟩ := List.mem_map.mp hreading
      obtain ⟨place, hplace⟩ := sound_each h _ (List.mem_map_of_mem hitem)
      exact (ih item hitem place hplace).1
    refine ⟨?_, fun _ _ => hconditions⟩
    rw [Value.reading_arr] at hconditions ⊢
    change Readable (Reading.conditionOfItems _)
    rw [Reading.conditionOfItems]
    split
    · exact readable_ok _
    · exact (readable_map _ _).mpr hconditions
  | obj fields ih =>
    intro path h
    refine ⟨?_, fun items hitems => by cases hitems⟩
    rw [Value.inspection_obj] at h
    rw [Value.reading_obj]
    change Sound (Inspection.conditionOf (inspected fields) path) at h
    refine readable_conditionOfEntries ?_
    have hgroup {name : String} {items : List Value} (hfield : Fields.get? name fields = some (.arr items))
        (hsound : Sound ((Value.arr items).inspection.condition path)) :
        Readable (Reading.required (readings fields) name >>= Reading.conditions) := by
      rw [required_readings hfield]
      exact (ih _ (Fields.mem_of_get? hfield) path hsound).2 items rfl
    rw [Inspection.conditionOf] at h
    simp only [Fields.get?_map] at h
    cases hand : Fields.get? "and" fields with
    | some v =>
      simp only [hand, Option.map_some, Option.some_or, Value.inspection_value] at h
      cases v with
      | arr items => exact .inl (hgroup hand h)
      | _ => simp [Problem.isWarning] at h
    | none =>
      cases hor : Fields.get? "or" fields with
      | some v =>
        simp only [hand, hor, Option.map_some, Option.map_none, Option.none_or, Value.inspection_value] at h
        cases v with
        | arr items => exact .inr (.inl (hgroup hor h))
        | _ => simp [Problem.isWarning] at h
      | none =>
        simp only [hand, hor, Option.map_none, Option.none_or] at h
        cases hnot : Fields.get? "not" fields with
        | some v =>
          simp only [hnot, Option.map_some] at h
          refine .inr (.inr (.inl ?_))
          rw [required_readings hnot]
          exact (ih _ (Fields.mem_of_get? hnot) path h).1
        | none =>
          simp only [hnot, Option.map_none] at h
          exact .inr (.inr (.inr (readable_comparison h)))

end Pipewright
