import Pipewright.Definition.Record
import Pipewright.Step
import Pipewright.Value.Fold

/-!
# Definitions: reading

What a value means as a condition, a step, a list of steps or a pipeline. A `Reading` holds all these
meanings of one value, and the reading of a value is put together from the readings of its parts.

Records are read as in `Value.record`, and an optional field may be null. A step begins with its type; inside
another step the type may also be given by its number.
-/
namespace Pipewright

/-- What a value can be read as. The flags tell whether the value stands inside a step. -/
structure Reading where
  value : Value
  condition : Except DecodeError Condition
  conditions : Except DecodeError (List Condition)
  step : Bool → Except DecodeError Step
  steps : Bool → Except DecodeError (List Step)
  pipeline : Bool → Except DecodeError Pipeline

namespace Reading

/-! ### Fields of a record -/

/-- The fields of a record, read. -/
abbrev Record := List (String × Reading)

/-- A list as a record with these fields, in order. -/
def positional (names : List String) (items : List Reading) : Except DecodeError Record :=
  if items.length ≤ names.length then .ok (names.zip items) else .error .tooManyFields

def required (record : Record) (name : String) : Except DecodeError Reading :=
  match Fields.get? name record with
  | some r => .ok r
  | none => .error (.missingField name)

/-- A field that is there and not null. -/
def present? (record : Record) (name : String) : Option Reading :=
  (Fields.get? name record).filter (!·.value.isNull)

def text (r : Reading) : Except DecodeError String := r.value.text

def optionalText (record : Record) (name : String) : Except DecodeError (Option String) :=
  match present? record name with
  | some r => r.text.map some
  | none => .ok none

def requiredText (record : Record) (name : String) : Except DecodeError String := do
  (← required record name).text

/-- Any value, null if the field is absent. -/
def plain (record : Record) (name : String) : Value :=
  match Fields.get? name record with
  | some r => r.value
  | none => .null

/-- An object, empty if the field is absent or null. -/
def optionalFields (record : Record) (name : String) : Except DecodeError (Fields Value) :=
  match present? record name with
  | none => .ok []
  | some r =>
    match r.value with
    | .obj fields => .ok fields
    | _ => .error (.mismatch "an object")

/-- Steps, none if the field is absent or null. -/
def optionalSteps (record : Record) (name : String) : Except DecodeError (List Step) :=
  match present? record name with
  | some r => r.steps true
  | none => .ok []

/-- A field that goes by two names, of which at most one may be there. -/
def aliased (record : Record) (name second : String) : Except DecodeError (Option Reading) :=
  match Fields.get? name record, Fields.get? second record with
  | some _, some _ => .error (.duplicateField name)
  | some r, none | none, some r => .ok (some r)
  | none, none => .ok none

/-- The text of a field that may be absent or null. -/
def textOf : Option Reading → Except DecodeError (Option String)
  | none => .ok none
  | some r => if r.value.isNull then .ok none else r.text.map some

/-! ### Conditions -/

/-- A comparison; without an operator it asks whether the field is not empty. -/
def comparison (record : Record) : Except DecodeError Comparison := do
  let field ← required record "field"
  let operator ← match Fields.get? "operator" record with
    | some r => r.text
    | none => .ok "not_empty"
  return ⟨field.value, operator, plain record "value"⟩

/-- The first of `and`, `or`, `not` that can be read, else a comparison. -/
def conditionOfEntries (record : Record) : Except DecodeError Condition :=
  let group (name : String) : Except DecodeError (List Condition) := do (← required record name).conditions
  let negated : Except DecodeError Condition := do (← required record "not").condition
  match group "and", group "or", negated, comparison record with
  | .ok conditions, _, _, _ => .ok (.all conditions)
  | _, .ok conditions, _, _ => .ok (.any conditions)
  | _, _, .ok condition, _ => .ok (.negate condition)
  | _, _, _, .ok c => .ok (.compare c)
  | _, _, _, _ => .error (.mismatch "a condition")

/-- A list is a comparison if it can be one, else a list of conditions. -/
def conditionOfItems (items : List Reading) : Except DecodeError Condition :=
  match (positional ["field", "operator", "value"] items).bind comparison with
  | .ok c => .ok (.compare c)
  | .error _ => (items.mapM Reading.condition).map .list

/-! ### Steps -/

/-- The kind of a step by the name of its type, or inside a step by its number. -/
def stepKind (inner : Bool) (tag : Value) : Except DecodeError StepKind :=
  let kind := match tag with
    | .str name => StepKind.parse? name
    | .num (.int (.ofNat n)) => if inner then StepKind.all[n]? else none
    | _ => none
  match kind with
  | some kind => .ok kind
  | none => .error (.mismatch "a step type")

/-- The fields of each kind of step, in order. -/
def stepFields : StepKind → List String
  | .ability => ["ability", "input", "output"]
  | .transform => ["operation", "input", "params", "output"]
  | .conditional => ["condition", "then", "else", "output"]
  | .loop => ["input", "steps", "item_var", "index_var", "collect", "output"]
  | .parallel => ["steps", "output"]
  | .tryCatch => ["try", "catch", "finally", "output"]
  | .subPipeline => ["pipeline", "inputs", "output"]

/-- A step of a kind. Fields are read in order of name, which decides which of two errors is met. -/
def stepOf (record : Record) : StepKind → Except DecodeError Step
  | .ability => do
    let name ← requiredText record "ability"
    let output ← optionalText record "output"
    return .ability name (plain record "input") output
  | .transform => do
    let input ← required record "input"
    let operation ← requiredText record "operation"
    let output ← optionalText record "output"
    let params ← optionalFields record "params"
    return .transform operation input.value params output
  | .conditional => do
    let condition ← (← required record "condition").condition
    let whenFalse ← optionalSteps record "else"
    let output ← optionalText record "output"
    let whenTrue ← optionalSteps record "then"
    return .conditional condition whenTrue whenFalse output
  | .loop => do
    let collect ← optionalText record "collect"
    let indexVar ← textOf (← aliased record "index_var" "indexVar")
    let input ← required record "input"
    let itemVar ← textOf (← aliased record "item_var" "itemVar")
    let output ← optionalText record "output"
    let body ← (← required record "steps").steps true
    return .loop input.value body (itemVar.getD "item") indexVar collect output
  | .parallel => do
    let output ← optionalText record "output"
    let steps ← required record "steps"
    let branches ← if steps.value.isNull then .ok [] else steps.steps true
    return .parallel branches output
  | .tryCatch => do
    let recovery ← match present? record "catch" with
      | some r => (r.steps true).map some
      | none => .ok none
    let always ← optionalSteps record "finally"
    let output ← optionalText record "output"
    let attempt ← (← required record "try").steps true
    return .tryCatch attempt recovery always output
  | .subPipeline => do
    let inputs ← optionalFields record "inputs"
    let output ← optionalText record "output"
    let pipeline ← (← required record "pipeline").pipeline true
    return .subPipeline pipeline inputs output

def stepOfEntries (record : Record) (inner : Bool) : Except DecodeError Step := do
  let tag ← required record "type"
  stepOf record (← stepKind inner tag.value)

def stepOfItems (items : List Reading) (inner : Bool) : Except DecodeError Step :=
  match items with
  | [] => .error (.missingField "type")
  | tag :: items => do
    let kind ← stepKind inner tag.value
    stepOf (← positional (stepFields kind) items) kind

/-! ### Pipelines -/

def pipelineOf (record : Record) (inner : Bool) : Except DecodeError Pipeline := do
  let description ← optionalText record "description"
  let limits ← match present? record "limits" with
    | some r => (Limits.decode r.value).map some
    | none => .ok none
  let name ← optionalText record "name"
  let output ← optionalText record "output"
  let steps ← (← required record "steps").steps inner
  return ⟨name, description, steps, output, limits⟩

/-! ### Readings -/

/-- A null, boolean, number or string is nothing but a value. -/
def leaf (v : Value) : Reading where
  value := v
  condition := .error (.mismatch "a condition")
  conditions := .error (.mismatch "a list of conditions")
  step _ := .error (.mismatch "a step")
  steps _ := .error (.mismatch "a list of steps")
  pipeline _ := .error (.mismatch "a pipeline")

def ofItems (items : List Reading) : Reading where
  value := .arr (items.map (·.value))
  condition := conditionOfItems items
  conditions := items.mapM Reading.condition
  step := stepOfItems items
  steps inner := items.mapM (·.step inner)
  pipeline inner := do
    pipelineOf (← positional ["name", "description", "steps", "output", "limits"] items) inner

def ofEntries (record : Record) : Reading where
  value := .obj (record.map fun entry => (entry.1, entry.2.value))
  condition := conditionOfEntries record
  conditions := .error (.mismatch "a list of conditions")
  step := stepOfEntries record
  steps _ := .error (.mismatch "a list of steps")
  pipeline := pipelineOf record

end Reading

/-- All that a value can be read as. -/
def Value.reading : Value → Reading := Value.fold Reading.leaf Reading.ofItems Reading.ofEntries

namespace PipelineOf

/-- The pipeline that a value defines. -/
def decode (definition : Value) : Except DecodeError Pipeline := definition.reading.pipeline false

end PipelineOf

def Step.decode (v : Value) : Except DecodeError Step := v.reading.step false

def Condition.decode (v : Value) : Except DecodeError Condition := v.reading.condition

end Pipewright
