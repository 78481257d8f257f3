import Pipewright.Step
import Pipewright.Value.Fold

/-!
# Validation

A structural check of a definition before it is decoded. All problems are found, each at the path of the
part that has it. Errors refuse the definition; warnings tell what may fail when it runs.
-/
namespace Pipewright

/-- What can be wrong with a part of a definition. -/
inductive Problem where
  | notPipeline
  | notText (field : String)
  | notObject (field : String)
  | limitNotNatural (field : String)
  | noSteps
  | emptySteps
  | stepsNotList
  | tooDeep (maximum : Nat)
  | notStep
  | untyped
  | unknownType (name : String)
  | typeNotText (found : String)
  | missing (field : String)
  | emptyAbility
  | emptyList (field : String)
  | notStepList (field : String)
  | notCondition
  | shapelessCondition
  | groupNotList
  /-- A warning: no transform has this name. -/
  | unknownTransform (name : String)
  /-- A warning: no operator has this name. -/
  | unknownOperator (name : String)
  /-- A warning: a parallel step that does nothing. -/
  | noBranches
deriving DecidableEq

namespace Problem

def isWarning : Problem → Bool
  | .unknownTransform _ | .unknownOperator _ | .noBranches => true
  | _ => false

def message : Problem → String
  | .notPipeline => "pipeline definition must be an object"
  | .notText field => s!"'{field}' must be a string"
  | .notObject field => s!"'{field}' must be an object"
  | .limitNotNatural field => s!"limit '{field}' must be a non-negative integer"
  | .noSteps => "pipeline must define a 'steps' list"
  | .emptySteps => "pipeline 'steps' must not be empty"
  | .stepsNotList => "'steps' must be a list"
  | .tooDeep maximum => s!"steps nest deeper than the maximum of {maximum}"
  | .notStep => "step must be an object"
  | .untyped => "step is missing 'type'"
  | .unknownType name => s!"unknown step type '{name}'"
  | .typeNotText found => "step type must be a string, got " ++ found
  | .missing field => s!"missing required field '{field}'"
  | .emptyAbility => "ability name must not be empty"
  | .emptyList field => s!"'{field}' must contain at least one step"
  | .notStepList field => s!"'{field}' must be a list of steps"
  | .notCondition => "condition must be an object or a list"
  | .shapelessCondition => "condition needs 'field', 'and', 'or' or 'not'"
  | .groupNotList => "'and'/'or' must be a list of conditions"
  | .unknownTransform name => s!"unknown transform '{name}'"
  | .unknownOperator name => s!"unknown operator '{name}'"
  | .noBranches => "parallel step has no branches"

end Problem

/-- A problem and the part that has it. -/
structure Finding where
  path : Path
  problem : Problem
deriving DecidableEq

namespace Finding

/-- The path and the message; the definition as a whole has no path to show. -/
def text (finding : Finding) : String :=
  if finding.path.isEmpty then finding.problem.message
  else finding.path.text ++ ": " ++ finding.problem.message

end Finding

/-- What a check holds a definition to. -/
structure Rules where
  /-- The greatest depth of a step list. -/
  maxNesting : Nat
  /-- The names of transforms, if other names are to be warned about. -/
  transforms : Option (List String)

/-- How deep step lists may nest unless another ceiling is set. -/
def Rules.standardNesting : Nat := 32

/-- The checks of one value: as a pipeline, a list of steps or a step at a path and depth, or as a condition
at a path. -/
structure Inspection where
  value : Value
  pipeline : Rules → Path → Nat → List Finding
  steps : Rules → Path → Nat → List Finding
  step : Rules → Path → Nat → List Finding
  condition : Path → List Finding

namespace Inspection

/-- The fields of an object with their checks. -/
abbrev Entries := List (String × Inspection)

/-- The value of a field. -/
def valueAt (entries : Entries) (field : String) : Option Value :=
  (Fields.get? field entries).map Inspection.value

/-- A finding if a test says so. -/
def findIf (found : Bool) (path : Path) (problem : Problem) : List Finding :=
  if found then [⟨path, problem⟩] else []

/-- A field that is text if it is there and not null. -/
def optionalText (entries : Entries) (path : Path) (field : String) : List Finding :=
  match valueAt entries field with
  | none | some .null | some (.str _) => []
  | some _ => [⟨path, .notText field⟩]

/-- A field that is an object if it is there and not null. -/
def optionalObject (entries : Entries) (path : Path) (field : String) : List Finding :=
  match valueAt entries field with
  | none | some .null | some (.obj _) => []
  | some _ => [⟨path, .notObject field⟩]

def isNatural : Value → Bool
  | .num (.int n) => 0 ≤ n
  | _ => false

def limits (path : Path) : Value → List Finding
  | .obj fields => ["max_steps", "max_depth", "timeout_secs"].flatMap fun field =>
    match Fields.get? field fields with
    | some v => findIf (!isNatural v) path (.limitNotNatural field)
    | none => []
  | _ => [⟨path, .notObject "limits"⟩]

/-- A list of steps inside a step. -/
def stepList (rules : Rules) (entries : Entries) (path : Path) (depth : Nat) (key : Key) (mandatory : Bool) :
    List Finding :=
  match Fields.get? key.name entries with
  | none => findIf mandatory path (.missing key.name)
  | some list =>
    match list.value with
    | .null => findIf mandatory path (.missing key.name)
    | .arr items =>
      findIf (mandatory && items.isEmpty) path (.emptyList key.name) ++
        list.steps rules (path.key key) (depth + 1)
    | _ => [⟨path, .notStepList key.name⟩]

/-- A field that has to be there, whatever its value. -/
def mandatoryField (entries : Entries) (path : Path) (field : String) : List Finding :=
  findIf (!Fields.contains field entries) path (.missing field)

/-- The fields that a kind of step has beside its output. -/
def ofKind (rules : Rules) (entries : Entries) (path : Path) (depth : Nat) : StepKind → List Finding
  | .ability =>
    match valueAt entries "ability" with
    | none => [⟨path, .missing "ability"⟩]
    | some (.str name) => findIf name.isEmpty path .emptyAbility
    | some _ => [⟨path, .notText "ability"⟩]
  | .transform =>
    (match valueAt entries "operation" with
    | none => [⟨path, .missing "operation"⟩]
    | some (.str name) =>
      findIf (rules.transforms.any (!·.contains name)) path (.unknownTransform name)
    | some _ => [⟨path, .notText "operation"⟩]) ++
      mandatoryField entries path "input" ++ optionalObject entries path "params"
  | .conditional =>
    (match Fields.get? "condition" entries with
    | none => [⟨path, .missing "condition"⟩]
    | some condition => condition.condition (path.key .condition)) ++
      stepList rules entries path depth .thenSteps false ++ stepList rules entries path depth .elseSteps false
  | .loop =>
    mandatoryField entries path "input" ++
      ["item_var", "itemVar", "index_var", "indexVar", "collect"].flatMap (optionalText entries path) ++
      stepList rules entries path depth .steps true
  | .parallel =>
    (match valueAt entries "steps" with
    | some (.arr []) => [⟨path, .noBranches⟩]
    | _ => []) ++
      stepList rules entries path depth .steps false ++ mandatoryField entries path "steps"
  | .tryCatch =>
    stepList rules entries path depth .trySteps true ++ stepList rules entries path depth .catchSteps false ++
      stepList rules entries path depth .finallySteps false
  | .subPipeline =>
    (match Fields.get? "pipeline" entries with
    | none => [⟨path, .missing "pipeline"⟩]
    | some pipeline => pipeline.pipeline rules (path.key .pipeline) (depth + 1)) ++
      optionalObject entries path "inputs"

def stepOf (entries : Entries) (rules : Rules) (path : Path) (depth : Nat) : List Finding :=
  match valueAt entries "type" with
  | none => [⟨path, .untyped⟩]
  | some (.str name) =>
    match StepKind.parse? name with
    | none => [⟨path, .unknownType name⟩]
    | some kind => optionalText entries path "output" ++ ofKind rules entries path depth kind
  | some found => [⟨path, .typeNotText (Json.print found)⟩]

def pipelineOf (entries : Entries) (rules : Rules) (path : Path) (depth : Nat) : List Finding :=
  ["name", "description", "output"].flatMap (optionalText entries path) ++
    ((Fields.get? "limits" entries).map fun found => limits path found.value).getD [] ++
    match Fields.get? "steps" entries with
    | none => [⟨path, .noSteps⟩]
    | some list =>
      match list.value with
      | .arr [] => [⟨path, .emptySteps⟩]
      | .arr _ => list.steps rules (path.key .steps) depth
      | _ => [⟨path, .stepsNotList⟩]

/-- A condition of the form of an object. The groups of an `and`, `or` or `not` stand at its own path. -/
def conditionOf (entries : Entries) (path : Path) : List Finding :=
  match (Fields.get? "and" entries).or (Fields.get? "or" entries) with
  | some group =>
    match group.value with
    | .arr _ => group.condition path
    | _ => [⟨path, .groupNotList⟩]
  | none =>
    match Fields.get? "not" entries with
    | some negated => negated.condition path
    | none =>
      if Fields.contains "field" entries then
        match valueAt entries "operator" with
        | none => []
        | some (.str name) => findIf (Operator.parse? name).isNone path (.unknownOperator name)
        | some _ => [⟨path, .notText "operator"⟩]
      else [⟨path, .shapelessCondition⟩]

/-- Checks of the items of a list, each at its index. -/
def each (path : Path) (items : List Inspection) (check : Inspection → Path → List Finding) : List Finding :=
  items.zipIdx.flatMap fun (item, i) => check item (path.index i)

/-- Null, booleans, numbers and strings are no part of a definition that could be checked. -/
def leaf (v : Value) : Inspection where
  value := v
  pipeline _ path _ := [⟨path, .notPipeline⟩]
  steps _ _ _ := []
  step _ path _ := [⟨path, .notStep⟩]
  condition path := [⟨path, .notCondition⟩]

def ofItems (items : List Inspection) : Inspection where
  value := .arr (items.map (·.value))
  pipeline _ path _ := [⟨path, .notPipeline⟩]
  steps rules path depth :=
    if rules.maxNesting < depth then [⟨path, .tooDeep rules.maxNesting⟩]
    else each path items fun item path => item.step rules path depth
  step _ path _ := [⟨path, .notStep⟩]
  condition path := each path items Inspection.condition

def ofEntries (entries : Entries) : Inspection where
  value := .obj (entries.map fun entry => (entry.1, entry.2.value))
  pipeline := pipelineOf entries
  steps _ _ _ := []
  step := stepOf entries
  condition := conditionOf entries

end Inspection

/-- The checks of a value. -/
def Value.inspection : Value → Inspection :=
  Value.fold Inspection.leaf Inspection.ofItems Inspection.ofEntries

namespace Rules

/-- All that is wrong with a definition. -/
def findings (rules : Rules) (definition : Value) : List Finding :=
  definition.inspection.pipeline rules [] 0

/-- The texts of the findings that refuse a definition. -/
def errors (rules : Rules) (definition : Value) : List String :=
  ((rules.findings definition).filter (!·.problem.isWarning)).map Finding.text

/-- The texts of the findings that do not refuse a definition. -/
def warnings (rules : Rules) (definition : Value) : List String :=
  ((rules.findings definition).filter (·.problem.isWarning)).map Finding.text

def accepts (rules : Rules) (definition : Value) : Bool := (rules.errors definition).isEmpty

/-- The verdict with all findings, as a value. -/
def report (rules : Rules) (definition : Value) : Value :=
  .obj (Fields.ofList [("valid", .bool (rules.accepts definition)),
    ("errors", .arr ((rules.errors definition).map .str)),
    ("warnings", .arr ((rules.warnings definition).map .str))])

end Rules

end Pipewright
