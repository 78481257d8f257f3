import Pipewright.Proofs.StepInduction
import Pipewright.Proofs.ValueInduction

/-!
# The names that a pipeline mentions

What a value or a condition comes to in a scope depends on the variables that its references begin with and on
nothing else. `Step.mentions` collects these names over all that a step evaluates in the scope it runs in. A pipeline
inside it runs in a scope of its own, so only what is handed to it counts.
-/
namespace Pipewright

namespace Value

/-- The variable that a string refers to, if it is a reference. -/
def root? : Value → Option String
  | .str s => (Reference.parse? s).map Reference.root
  | _ => none

/-- The variables that the references in a value begin with. -/
def roots : Value → List String :=
  fold (fun v => v.root?.toList) List.flatten fun entries => entries.flatMap Prod.snd

/-- The variables that the references in named values begin with. -/
def rootsOfFields (fields : Fields Value) : List String := fields.flatMap fun entry => entry.2.roots

theorem roots_arr (items : List Value) : (arr items).roots = items.flatMap roots := by
  rw [roots, fold, foldItems_eq_map, List.flatMap_def]

theorem roots_obj (fields : Fields Value) : (obj fields).roots = rootsOfFields fields := by
  rw [roots, fold, foldFields_eq_map, List.flatMap_map]
  rfl

end Value

namespace Condition

mutual

/-- The variables that the references in a condition begin with. -/
def roots : Condition → List String
  | .all conditions | .any conditions | .list conditions => rootsAll conditions
  | .negate condition => roots condition
  | .compare comparison => comparison.field.roots ++ comparison.value.roots

def rootsAll : List Condition → List String
  | [] => []
  | c :: rest => roots c ++ rootsAll rest

end

end Condition

namespace Step

mutual

/-- The variables that a step reads by name in the scope it runs in, in whatever it evaluates there. -/
def mentions : Step → List String
  | .ability _ input _ => input.roots
  | .transform _ input params _ => input.roots ++ Value.rootsOfFields params
  | .conditional condition whenTrue whenFalse _ => condition.roots ++ (mentionsAll whenTrue ++ mentionsAll whenFalse)
  | .loop input body _ _ collect _ => input.roots ++ (collect.toList ++ mentionsAll body)
  | .parallel branches _ => mentionsAll branches
  | .tryCatch attempt recovery always _ => mentionsAll attempt ++ (mentionsOption recovery ++ mentionsAll always)
  | .subPipeline _ inputs _ => Value.rootsOfFields inputs

def mentionsAll : List Step → List String
  | [] => []
  | s :: rest => mentions s ++ mentionsAll rest

def mentionsOption : Option (List Step) → List String
  | none => []
  | some steps => mentionsAll steps

end

theorem mentions_subset_mentionsAll {s : Step} {steps : List Step} (h : s ∈ steps) :
    s.mentions ⊆ mentionsAll steps := by
  induction steps with
  | nil => cases h
  | cons first rest ih =>
    rw [mentionsAll]
    rcases List.mem_cons.mp h with rfl | h
    · exact List.subset_append_left _ _
    · exact List.Subset.trans (ih h) (List.subset_append_right _ _)

end Step

/-- The names that a pipeline mentions: those that its steps read, and its output. -/
def PipelineOf.mentions (pipeline : Pipeline) : List String :=
  Step.mentionsAll pipeline.steps ++ pipeline.output.toList

namespace Scope

/-- Two scopes have the same bindings for some names. -/
def AgreeOn (names : List String) (scope other : Scope) : Prop := ∀ name ∈ names, other.get? name = scope.get? name

variable {names more : List String} {scope other : Scope}

theorem AgreeOn.mono (h : AgreeOn more scope other) (hsub : names ⊆ more) : AgreeOn names scope other :=
  fun name hname => h name (hsub hname)

end Scope

section

variable {scope other : Scope}

theorem Reference.resolve_congr {r : Reference} (h : other.get? r.root = scope.get? r.root) :
    r.resolve other = r.resolve scope := by
  rw [resolve, resolve, Scope.lookup, Scope.lookup, h]

namespace Value

theorem resolveItems_congr {items : List Value} (h : ∀ v ∈ items, v.resolve other = v.resolve scope) :
    resolveItems other items = resolveItems scope items := by
  induction items with
  | nil => rfl
  | cons v rest ih =>
    rw [resolveItems, resolveItems, h v List.mem_cons_self, ih fun w hw => h w (List.mem_cons_of_mem _ hw)]

theorem resolveFields_congr {fields : Fields Value}
    (h : ∀ entry ∈ fields, entry.2.resolve other = entry.2.resolve scope) :
    resolveFields other fields = resolveFields scope fields := by
  induction fields with
  | nil => rfl
  | cons entry rest ih =>
    obtain ⟨key, v⟩ := entry
    have hv : v.resolve other = v.resolve scope := h (key, v) List.mem_cons_self
    rw [resolveFields, resolveFields, hv, ih fun entry hentry => h entry (List.mem_cons_of_mem _ hentry)]

/-- A value comes to the same in scopes that agree on the variables that it refers to. -/
theorem resolve_of_agreeOn {v : Value} (h : Scope.AgreeOn v.roots scope other) :
    v.resolve other = v.resolve scope := by
  induction v using induction with
  | null | bool | num => rfl
  | str s =>
    rw [resolve, resolve]
    cases hparse : Reference.parse? s with
    | none => rfl
    | some r =>
      have hroot : r.root ∈ (str s).roots := by
        rw [roots, fold, root?, hparse]
        exact List.mem_cons_self
      exact Reference.resolve_congr (h r.root hroot)
  | arr items ih =>
    rw [roots_arr] at h
    have hitems : ∀ v ∈ items, v.resolve other = v.resolve scope :=
      fun v hv => ih v hv (h.mono fun _ hname => List.mem_flatMap.mpr ⟨v, hv, hname⟩)
    rw [resolve, resolve, resolveItems_congr hitems]
  | obj fields ih =>
    rw [roots_obj] at h
    have hfields : ∀ entry ∈ fields, entry.2.resolve other = entry.2.resolve scope :=
      fun entry hentry => ih entry hentry (h.mono fun _ hname => List.mem_flatMap.mpr ⟨entry, hentry, hname⟩)
    rw [resolve, resolve, resolveFields_congr hfields]

theorem resolveFields_of_agreeOn {fields : Fields Value} (h : Scope.AgreeOn (rootsOfFields fields) scope other) :
    resolveFields other fields = resolveFields scope fields :=
  resolveFields_congr fun entry hentry =>
    resolve_of_agreeOn (h.mono fun _ hname => List.mem_flatMap.mpr ⟨entry, hentry, hname⟩)

end Value

theorem Comparison.evaluate_of_agreeOn {c : Comparison}
    (h : Scope.AgreeOn (c.field.roots ++ c.value.roots) scope other) : c.evaluate other = c.evaluate scope := by
  rw [evaluate, evaluate, Value.resolve_of_agreeOn (h.mono (List.subset_append_left _ _)),
    Value.resolve_of_agreeOn (h.mono (List.subset_append_right _ _))]

namespace Condition

mutual

/-- A condition has the same verdict in scopes that agree on the variables that it refers to. -/
theorem evaluate_of_agreeOn : ∀ {c : Condition}, Scope.AgreeOn c.roots scope other →
    c.evaluate other = c.evaluate scope
  | .all conditions, h => by
    rw [evaluate, evaluate]
    exact evaluateAll_of_agreeOn h
  | .any conditions, h => by
    rw [evaluate, evaluate]
    exact evaluateAny_of_agreeOn h
  | .negate condition, h => by
    rw [evaluate, evaluate, evaluate_of_agreeOn (c := condition) h]
  | .compare comparison, h => by
    rw [evaluate, evaluate]
    exact comparison.evaluate_of_agreeOn h
  | .list conditions, h => by
    rw [evaluate, evaluate]
    exact evaluateAll_of_agreeOn h

theorem evaluateAll_of_agreeOn : ∀ {conditions : List Condition}, Scope.AgreeOn (rootsAll conditions) scope other →
    evaluateAll other conditions = evaluateAll scope conditions
  | [], _ => rfl
  | c :: rest, h => by
    rw [evaluateAll, evaluateAll, evaluate_of_agreeOn (h.mono (List.subset_append_left _ _)),
      evaluateAll_of_agreeOn (h.mono (List.subset_append_right _ _))]

theorem evaluateAny_of_agreeOn : ∀ {conditions : List Condition}, Scope.AgreeOn (rootsAll conditions) scope other →
    evaluateAny other conditions = evaluateAny scope conditions
  | [], _ => rfl
  | c :: rest, h => by
    rw [evaluateAny, evaluateAny, evaluate_of_agreeOn (h.mono (List.subset_append_left _ _)),
      evaluateAny_of_agreeOn (h.mono (List.subset_append_right _ _))]

end

end Condition

end

end Pipewright
