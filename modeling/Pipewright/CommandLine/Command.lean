import Pipewright.CommandLine.Assignment
import Pipewright.Limits

/-!
# Commands

What the program can be told to do: to run a pipeline, to check a definition, or to outline a pipeline.
-/
namespace Pipewright

/-- The options of a run. -/
structure RunOptions where
  file : String
  /-- The file that holds the context, if there is one. -/
  context : Option String
  /-- The file that holds the fixtures, if there is one. -/
  abilities : Option String
  assignments : List Assignment
  maxSteps : Option Nat
  maxDepth : Option Nat
  timeout : Option Nat
  json : Bool

/-- The limits of a run: options stand above those of the file, and these above the standard ones. -/
def RunOptions.limits (options : RunOptions) (ofFile : Option Limits) : Limits :=
  (ofFile.getD Limits.standard).override options.maxSteps options.maxDepth options.timeout

/-- The options of a command that only looks at a definition. -/
structure ViewOptions where
  file : String
  json : Bool

inductive Command where
  | run (options : RunOptions)
  | validate (options : ViewOptions)
  | plan (options : ViewOptions)

/-- A command, and whether it tells more about what it does. -/
structure Invocation where
  command : Command
  verbose : Bool

/-- The files that a command reads. -/
def Command.files : Command → List String
  | .run options => options.file :: options.context.toList ++ options.abilities.toList
  | .validate options | .plan options => [options.file]

end Pipewright
