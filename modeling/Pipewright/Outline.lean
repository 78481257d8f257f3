import Pipewright.Step

/-!
# Outlines

The steps that a pipeline declares, in the order in which they are written, each before the steps inside it.
-/
namespace Pipewright

/-- One step of an outline. A location is a path, or the text of one. -/
structure OutlineEntry (Loc : Type) where
  path : Loc
  depth : Nat
  kind : StepKind
  summary : String
  output : Option String

structure Outline where
  name : Option String
  totalSteps : Nat
  maxNesting : Nat
  entries : List (OutlineEntry Path)

namespace OutlineEntry

def toValue (entry : OutlineEntry Path) : Value :=
  .obj (Fields.ofList ([("path", .str entry.path.text), ("depth", .nat entry.depth),
    ("step_type", .str entry.kind.name), ("summary", .str entry.summary)] ++
    (entry.output.map fun name => ("output", Value.str name)).toList))

end OutlineEntry

def Outline.toValue (outline : Outline) : Value :=
  .obj (Fields.ofList ((outline.name.map fun name => ("name", Value.str name)).toList ++
    [("total_steps", .nat outline.totalSteps), ("max_nesting", .nat outline.maxNesting),
     ("entries", .arr (outline.entries.map OutlineEntry.toValue))]))

namespace Step

/-- What the outline says about a step itself. -/
def outlineEntry (s : Step) (path : Path) (depth : Nat) : OutlineEntry Path :=
  ⟨path, depth, s.kind, s.describe, s.output⟩

/-- The entries of the steps of a list, each of which knows how to outline itself at a place. -/
def outlineList (path : Path) (depth : Nat) (steps : List (Path → Nat → List (OutlineEntry Path))) :
    List (OutlineEntry Path) :=
  steps.zipIdx.flatMap fun (outlineStep, i) => outlineStep (path.index i) depth

/-- A step and the steps inside it, for a step at a place. -/
def outline : Step → Path → Nat → List (OutlineEntry Path) := fold fun s lists path depth =>
  s.outlineEntry path depth :: lists.flatMap fun (below, steps) => outlineList (path ++ below) (depth + 1) steps

end Step

namespace PipelineOf

def outline (pipeline : Pipeline) : Outline where
  name := pipeline.name
  totalSteps := pipeline.totalSteps
  maxNesting := pipeline.maxNesting
  entries := Step.outlineList Path.top 0 (pipeline.steps.map Step.outline)

end PipelineOf

end Pipewright
