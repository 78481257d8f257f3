/-!
# Paths

A path leads from a definition to a part of it, by keys and by positions in lists: `steps[0].then[1]`. The
same paths name steps and step lists in problems, outlines, events and errors.
-/
namespace Pipewright

/-- The keys of a definition under which steps, pipelines and conditions stand. -/
inductive Key where
  | steps
  | thenSteps
  | elseSteps
  | trySteps
  | catchSteps
  | finallySteps
  | pipeline
  | condition
deriving DecidableEq

def Key.name : Key → String
  | .steps => "steps"
  | .thenSteps => "then"
  | .elseSteps => "else"
  | .trySteps => "try"
  | .catchSteps => "catch"
  | .finallySteps => "finally"
  | .pipeline => "pipeline"
  | .condition => "condition"

/-- One move down a definition. -/
inductive Selector where
  | key (k : Key)
  | index (i : Nat)
deriving DecidableEq

/-- The moves from a definition to one of its parts, outermost first. -/
abbrev Path := List Selector

namespace Path

def key (path : Path) (k : Key) : Path := path ++ [.key k]

def index (path : Path) (i : Nat) : Path := path ++ [.index i]

/-- The text of the moves that follow another one. -/
def suffixText : Path → String
  | [] => ""
  | .key k :: rest => "." ++ k.name ++ suffixText rest
  | .index i :: rest => "[" ++ toString i ++ "]" ++ suffixText rest

/-- The text of a path. A dot stands before a key unless the path begins with it. -/
def text : Path → String
  | [] => ""
  | .key k :: rest => k.name ++ suffixText rest
  | .index i :: rest => "[" ++ toString i ++ "]" ++ suffixText rest

/-- The path of the top-level step list. -/
def top : Path := [.key .steps]

end Path

end Pipewright
