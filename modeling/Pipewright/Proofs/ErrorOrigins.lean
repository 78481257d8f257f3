import Pipewright.Proofs.OwnFailures
import Pipewright.Proofs.Resolution
import Pipewright.Validation

/-!
# Names that nothing is known by

Only a transform step can ask for a transform that is not there. For an operator that is not there a condition may
ask, in one of its comparisons, or the transform that filters, which is given the operator as a parameter.
-/
namespace Pipewright

namespace Value

variable {scope : Scope} {error : RunError}

/-- Nothing but an undefined variable keeps a value from being resolved. -/
theorem undefinedVariable_of_resolve {v : Value} (h : v.resolve scope = .error error) :
    ∃ name, error = .undefinedVariable name := by
  have hdecided := decidedBy_resolve scope v
  rw [h] at hdecided
  obtain ⟨r, -, rfl⟩ := hdecided
  exact ⟨r.root, rfl⟩

theorem undefinedVariable_of_resolveFields {fields : Fields Value}
    (h : resolveFields scope fields = .error error) : ∃ name, error = .undefinedVariable name := by
  have hdecided := decidedBy_resolveFields fun entry (_ : entry ∈ fields) => decidedBy_resolve scope entry.2
  rw [h] at hdecided
  obtain ⟨r, -, rfl⟩ := hdecided
  exact ⟨r.root, rfl⟩

end Value

namespace Condition

/-- A comparison by an operator of this name is part of a condition. -/
inductive Compares (name : String) : Condition → Prop where
  | compare {c : Comparison} : c.operator = name → Compares name (.compare c)
  | all {c : Condition} {conditions : List Condition} : c ∈ conditions → Compares name c →
    Compares name (.all conditions)
  | any {c : Condition} {conditions : List Condition} : c ∈ conditions → Compares name c →
    Compares name (.any conditions)
  | negate {c : Condition} : Compares name c → Compares name (.negate c)
  | list {c : Condition} {conditions : List Condition} : c ∈ conditions → Compares name c →
    Compares name (.list conditions)

/-- An error, if there is one, is that of an undefined variable or of an operator of one of these names. -/
def Asks {α : Type} (names : String → Prop) (result : Except RunError α) : Prop :=
  ∀ error, result = .error error → (∃ name, error = .undefinedVariable name) ∨
    ∃ name, error = .unknownOperator name ∧ Operator.parse? name = none ∧ names name

section

variable {α β : Type} {names more : String → Prop}

theorem asks_ok (a : α) : Asks names (.ok a) := nofun

theorem Asks.bind {result : Except RunError α} {next : α → Except RunError β} (h : Asks names result)
    (hnext : ∀ a, Asks names (next a)) : Asks names (result >>= next) := by
  cases result with
  | error error => exact fun other hother => h other (congrArg _ (Except.error.inj hother))
  | ok a => exact hnext a

theorem Asks.mono {result : Except RunError α} (h : Asks names result) (hmore : ∀ name, names name → more name) :
    Asks more result := by
  intro error herror
  refine (h error herror).imp_right ?_
  rintro ⟨name, hname, hparse, hnames⟩
  exact ⟨name, hname, hparse, hmore name hnames⟩

theorem asks_resolve (scope : Scope) (v : Value) : Asks names (v.resolve scope) :=
  fun _ h => .inl (Value.undefinedVariable_of_resolve h)

end

theorem asks_compare (scope : Scope) (c : Comparison) : Asks (· = c.operator) (c.evaluate scope) := by
  refine (asks_resolve scope c.field).bind fun left => (asks_resolve scope c.value).bind fun right => ?_
  intro error h
  rw [Operator.evaluate] at h
  split at h
  · cases h
  next hparse => exact .inr ⟨c.operator, (Except.error.inj h).symm, hparse, rfl⟩

mutual

/-- A condition asks for the operators of its comparisons. -/
theorem asks_evaluate (scope : Scope) : ∀ c : Condition, Asks (c.Compares ·) (c.evaluate scope)
  | .all conditions => by
    rw [evaluate]
    exact (asks_evaluateAll scope conditions).mono fun name ⟨c, hc, hname⟩ => .all hc hname
  | .any conditions => by
    rw [evaluate]
    exact (asks_evaluateAny scope conditions).mono fun name ⟨c, hc, hname⟩ => .any hc hname
  | .negate condition => by
    rw [evaluate]
    refine ((asks_evaluate scope condition).mono fun name => .negate).bind fun _ => asks_ok _
  | .compare comparison => by
    rw [evaluate]
    exact (asks_compare scope comparison).mono fun name hname => .compare hname.symm
  | .list conditions => by
    rw [evaluate]
    exact (asks_evaluateAll scope conditions).mono fun name ⟨c, hc, hname⟩ => .list hc hname

theorem asks_evaluateAll (scope : Scope) :
    ∀ conditions : List Condition, Asks (fun name => ∃ c ∈ conditions, c.Compares name) (evaluateAll scope conditions)
  | [] => asks_ok _
  | c :: rest => by
    rw [evaluateAll]
    refine ((asks_evaluate scope c).mono fun name hname => ⟨c, List.mem_cons_self, hname⟩).bind fun holds => ?_
    cases holds with
    | true =>
      refine (asks_evaluateAll scope rest).mono fun name ⟨d, hd, hname⟩ => ?_
      exact ⟨d, List.mem_cons_of_mem _ hd, hname⟩
    | false => exact asks_ok _

theorem asks_evaluateAny (scope : Scope) :
    ∀ conditions : List Condition, Asks (fun name => ∃ c ∈ conditions, c.Compares name) (evaluateAny scope conditions)
  | [] => asks_ok _
  | c :: rest => by
    rw [evaluateAny]
    refine ((asks_evaluate scope c).mono fun name hname => ⟨c, List.mem_cons_self, hname⟩).bind fun holds => ?_
    cases holds with
    | true => exact asks_ok _
    | false =>
      refine (asks_evaluateAny scope rest).mono fun name ⟨d, hd, hname⟩ => ?_
      exact ⟨d, List.mem_cons_of_mem _ hd, hname⟩

end

end Condition

namespace Transforms

/-- A fault, if there is one, is not that an operator is not there. -/
def KnowsOperators {α : Type} (result : Except Fault α) : Prop := ∀ name, result ≠ .error (.operator name)

section

variable {α β : Type}

theorem knows_ok (a : α) : KnowsOperators (.ok a) := nofun

theorem KnowsOperators.bind {result : Except Fault α} {next : α → Except Fault β} (h : KnowsOperators result)
    (hnext : ∀ a, KnowsOperators (next a)) : KnowsOperators (result >>= next) := by
  cases result with
  | error fault => exact fun name hname => h name (congrArg _ (Except.error.inj hname))
  | ok a => exact hnext a

theorem KnowsOperators.map {result : Except Fault α} (h : KnowsOperators result) (f : α → β) :
    KnowsOperators (do return f (← result)) :=
  h.bind fun _ => knows_ok _

end

variable (params : Params)

theorem knows_array (v : Value) : KnowsOperators (array v) := by
  cases v <;> exact nofun

theorem knows_string (v : Value) : KnowsOperators (string v) := by
  cases v <;> exact nofun

theorem knows_requiredText (name : String) : KnowsOperators (requiredText params name) := by
  rw [requiredText]
  split <;> exact nofun

theorem knows_intParam (name : String) : KnowsOperators (intParam params name) := by
  rw [intParam]
  split
  · exact nofun
  · exact nofun
  · split <;> exact nofun

theorem knows_map (items : List Value) : KnowsOperators (map params items) := by
  rw [map.eq_def]
  split
  · exact knows_ok _
  · exact (knows_requiredText params "field").map _

theorem knows_descending : KnowsOperators (descending params) := by
  rw [descending]
  split
  · exact nofun
  · dsimp only
    split
    · exact nofun
    · split <;> exact nofun

theorem knows_slice (items : List Value) : KnowsOperators (slice params items) :=
  (knows_intParam params "offset").bind fun _ => (knows_intParam params "length").bind fun _ => knows_ok _

theorem knows_chunk (items : List Value) : KnowsOperators (chunk params items) := by
  refine (knows_intParam params "size").bind fun size => ?_
  dsimp only
  split <;> exact nofun

theorem knows_flatten (items : List Value) : KnowsOperators (flatten params items) := by
  refine (knows_intParam params "depth").bind fun depth => ?_
  split
  · exact nofun
  · split <;> exact nofun

theorem knows_merge (data : Value) : KnowsOperators (merge params data) := by
  rw [merge]
  split
  · exact nofun
  · split <;> exact nofun

theorem knows_keys (v : Value) : KnowsOperators (keys v) := by
  cases v <;> exact nofun

theorem knows_values (v : Value) : KnowsOperators (values v) := by
  cases v <;> exact nofun

theorem knows_split (cs : List Char) : KnowsOperators (split params cs) := by
  rw [split]
  dsimp only
  split
  · exact nofun
  · exact (knows_intParam params "limit").map _

end Transforms

/-- Only the transform that filters asks for an operator. -/
theorem Transform.knowsOperators_apply {t : Transform} (h : t ≠ .filter) (params : Transforms.Params) (data : Value) :
    Transforms.KnowsOperators (t.apply params data) := by
  have hitems {α : Type} {f : List Value → Except Transforms.Fault α}
      (hf : ∀ items, Transforms.KnowsOperators (f items)) :
      Transforms.KnowsOperators (Transforms.array data >>= f) := (Transforms.knows_array data).bind hf
  have htext {α : Type} {f : List Char → Except Transforms.Fault α}
      (hf : ∀ cs, Transforms.KnowsOperators (f cs)) :
      Transforms.KnowsOperators (Transforms.string data >>= f) := (Transforms.knows_string data).bind hf
  cases t with
  | filter => exact absurd rfl h
  | map => exact hitems fun items => (Transforms.knows_map params items).map _
  | pluck => exact hitems fun items => ((Transforms.knows_requiredText params "field").map _).map _
  | sort => exact hitems fun items => ((Transforms.knows_descending params).map _).map _
  | slice => exact hitems fun items => (Transforms.knows_slice params items).map _
  | chunk => exact hitems fun items => (Transforms.knows_chunk params items).map _
  | flatten => exact hitems fun items => (Transforms.knows_flatten params items).map _
  | merge => exact Transforms.knows_merge params data
  | keys => exact Transforms.knows_keys data
  | values => exact Transforms.knows_values data
  | groupBy => exact hitems fun items => (Transforms.knows_requiredText params "field").map _
  | count => exact Transforms.knows_ok _
  | split => exact htext fun cs => (Transforms.knows_split params cs).map _
  | trim | uppercase | lowercase => exact htext fun cs => Transforms.knows_ok _
  | unique | reverse | first | last | sum | average | min | max | join =>
    exact hitems fun items => Transforms.knows_ok _

namespace Catalog

variable {transforms : Fields Transform} {operation name : String} {data : Value} {params : Transforms.Params}

/-- What a catalog does not have is what it is asked for. -/
theorem absent_of_run (h : (of transforms).run operation data params = .error (.unknownTransform name)) :
    operation = name ∧ Fields.get? name transforms = none := by
  rw [run_of] at h
  split at h
  next hget =>
    cases h
    exact ⟨rfl, hget⟩
  next t hget =>
    rw [Transform.run] at h
    cases hresult : t.apply params data with
    | ok v =>
      rw [hresult] at h
      cases h
    | error fault =>
      rw [hresult] at h
      cases fault <;> cases h

theorem filter_of_run (h : (of transforms).run operation data params = .error (.unknownOperator name)) :
    Fields.get? operation transforms = some .filter := by
  rw [run_of] at h
  split at h
  · cases h
  next t hget =>
    by_cases hfilter : t = .filter
    · rw [hget, hfilter]
    · have hknows := Transform.knowsOperators_apply hfilter params data
      rw [Transform.run] at h
      cases hresult : t.apply params data with
      | ok v =>
        rw [hresult] at h
        cases h
      | error fault =>
        rw [hresult] at h hknows
        cases fault <;> cases h
        exact absurd rfl (hknows _)

end Catalog

namespace RunError

/-- What the checks call an error that no transform, or no operator, has a name. -/
def problem? : RunError → Option Problem
  | .unknownTransform name => some (.unknownTransform name)
  | .unknownOperator name => some (.unknownOperator name)
  | _ => none

theorem eq_unknownTransform {error : RunError} {name : String} (h : error.problem? = some (.unknownTransform name)) :
    error = .unknownTransform name := by
  cases error <;> cases h
  rfl

theorem eq_unknownOperator {error : RunError} {name : String} (h : error.problem? = some (.unknownOperator name)) :
    error = .unknownOperator name := by
  cases error <;> cases h
  rfl

end RunError

namespace Engine

variable {engine : Engine} {scope : Scope} {before : List Call} {s : Step} {name : String} {error : RunError}
  {problem : Problem}

/-- A name that nothing is known by comes from the transform of a step or from its condition. -/
theorem Raises.of_problem (h : engine.Raises scope before s error) (hproblem : error.problem? = some problem) :
    (∃ operation input params output data values, s = .transform operation input params output ∧
      engine.catalog.run operation data values = .error error) ∨
    ∃ condition whenTrue whenFalse output name, s = .conditional condition whenTrue whenFalse output ∧
      error = .unknownOperator name ∧ Operator.parse? name = none ∧ condition.Compares name := by
  have hresolved {v : Value} (h : v.resolve scope = .error error) : False := by
    obtain ⟨_, rfl⟩ := Value.undefinedVariable_of_resolve h
    cases hproblem
  have hfields {fields : Fields Value} (h : Value.resolveFields scope fields = .error error) : False := by
    obtain ⟨_, rfl⟩ := Value.undefinedVariable_of_resolveFields h
    cases hproblem
  cases h with
  | noAbility | ability => cases hproblem
  | abilityInput h | transformInput h => exact (hresolved h).elim
  | params h | inputs h => exact (hfields h).elim
  | transform _ _ h => exact .inl ⟨_, _, _, _, _, _, rfl, h⟩
  | condition h =>
    rcases Condition.asks_evaluate _ _ _ h with ⟨_, rfl⟩ | ⟨name, rfl, hparse, hcompares⟩
    · cases hproblem
    · exact .inr ⟨_, _, _, _, name, rfl, rfl, hparse, hcompares⟩
  | @loopInput input _ _ _ _ _ _ h =>
    cases hinput : input.resolve scope with
    | error other =>
      rw [hinput] at h
      cases h
      exact (hresolved hinput).elim
    | ok v =>
      rw [hinput] at h
      cases v <;> cases h <;> cases hproblem

section

variable {abilities : Abilities} {transforms : Fields Transform} {limits : Limits}

/-- Only a transform step asks for a transform that is not there. -/
theorem Raises.unknownTransform
    (h : Raises ⟨abilities, .of transforms, limits⟩ scope before s (.unknownTransform name)) :
    Fields.get? name transforms = none ∧ ∃ input params output, s = .transform name input params output := by
  rcases h.of_problem rfl with ⟨_, input, params, output, _, _, rfl, hrun⟩ | ⟨_, _, _, _, _, -, hother, -⟩
  · obtain ⟨rfl, habsent⟩ := Catalog.absent_of_run hrun
    exact ⟨habsent, input, params, output, rfl⟩
  · cases hother

/-- For an operator that is not there a conditional step asks in its condition, or a step that filters. -/
theorem Raises.unknownOperator (h : Raises ⟨abilities, .of transforms, limits⟩ scope before s (.unknownOperator name)) :
    (∃ operation input params output, s = .transform operation input params output ∧
      Fields.get? operation transforms = some .filter) ∨
    ∃ condition whenTrue whenFalse output, s = .conditional condition whenTrue whenFalse output ∧
      Operator.parse? name = none ∧ condition.Compares name := by
  rcases h.of_problem rfl with
    ⟨operation, input, params, output, _, _, rfl, hrun⟩ | ⟨condition, whenTrue, whenFalse, output, _, rfl, heq, hasks⟩
  · exact .inl ⟨operation, input, params, output, rfl, Catalog.filter_of_run hrun⟩
  · cases heq
    exact .inr ⟨condition, whenTrue, whenFalse, output, rfl, hasks⟩

end

end Engine

end Pipewright
