import Pipewright.Step

/-!
# Definitions: writing

The value that defines a pipeline, a step, a condition or limits. Options that are absent are left out, all
else is written.
-/
namespace Pipewright

/-- An entry that is left out if there is nothing to write. -/
def optionalEntry (key : String) (v : Option Value) : List (String × Value) :=
  (v.map fun v => (key, v)).toList

def optionalText (key : String) (s : Option String) : List (String × Value) := optionalEntry key (s.map .str)

namespace Limits

def encode (limits : Limits) : Value :=
  .obj (Fields.ofList [("max_steps", .nat limits.maxSteps), ("max_depth", .nat limits.maxDepth),
    ("timeout_secs", .nat limits.timeoutSecs)])

end Limits

namespace Condition

mutual

def encode : Condition → Value
  | .all conditions => .obj [("and", .arr (encodeAll conditions))]
  | .any conditions => .obj [("or", .arr (encodeAll conditions))]
  | .negate condition => .obj [("not", encode condition)]
  | .compare c =>
    .obj (Fields.ofList [("field", c.field), ("operator", .str c.operator), ("value", c.value)])
  | .list conditions => .arr (encodeAll conditions)

def encodeAll : List Condition → List Value
  | [] => []
  | c :: rest => encode c :: encodeAll rest

end

end Condition

namespace PipelineOf

/-- The value of a pipeline whose steps are already encoded. -/
def encodeParts (pipeline : PipelineOf Value) : Value :=
  .obj (Fields.ofList (optionalText "name" pipeline.name ++
    optionalText "description" pipeline.description ++ [("steps", .arr pipeline.steps)] ++
    optionalText "output" pipeline.output ++ optionalEntry "limits" (pipeline.limits.map Limits.encode)))

end PipelineOf

namespace Step

/-- The object of a step: its type, its own entries and its output. -/
def encodeAs (kind : StepKind) (entries : List (String × Value)) (output : Option String) : Value :=
  .obj (Fields.ofList (("type", .str kind.name) :: entries ++ optionalText "output" output))

mutual

def encode : Step → Value
  | .ability name input output => encodeAs .ability [("ability", .str name), ("input", input)] output
  | .transform operation input params output =>
    encodeAs .transform [("operation", .str operation), ("input", input), ("params", .obj params)] output
  | .conditional condition whenTrue whenFalse output =>
    encodeAs .conditional [("condition", condition.encode), ("then", .arr (encodeAll whenTrue)),
      ("else", .arr (encodeAll whenFalse))] output
  | .loop input body itemVar indexVar collect output =>
    encodeAs .loop ([("input", input), ("steps", .arr (encodeAll body)), ("item_var", .str itemVar)] ++
      optionalText "index_var" indexVar ++ optionalText "collect" collect) output
  | .parallel branches output => encodeAs .parallel [("steps", .arr (encodeAll branches))] output
  | .tryCatch attempt recovery always output =>
    encodeAs .tryCatch ([("try", .arr (encodeAll attempt))] ++
      optionalEntry "catch" ((encodeOption recovery).map .arr) ++
      [("finally", .arr (encodeAll always))]) output
  | .subPipeline ⟨name, description, steps, result, limits⟩ inputs output =>
    encodeAs .subPipeline [("pipeline",
      PipelineOf.encodeParts ⟨name, description, encodeAll steps, result, limits⟩),
      ("inputs", .obj inputs)] output

def encodeAll : List Step → List Value
  | [] => []
  | s :: rest => encode s :: encodeAll rest

def encodeOption : Option (List Step) → Option (List Value)
  | none => none
  | some steps => some (encodeAll steps)

end

end Step

namespace PipelineOf

/-- The definition of a pipeline. -/
def encode (pipeline : Pipeline) : Value :=
  encodeParts ⟨pipeline.name, pipeline.description, Step.encodeAll pipeline.steps, pipeline.output,
    pipeline.limits⟩

end PipelineOf

end Pipewright
