import Pipewright.Json.Reader

/-!
# Assignments

A variable of the context as it is given on the command line: a name, an equals sign and a value.
-/
namespace Pipewright

structure Assignment where
  name : String
  value : Value

/-- Why a text assigns nothing. -/
inductive AssignmentError where
  | noEqualsSign (text : String)
  | noName (text : String)

def AssignmentError.message : AssignmentError → String
  | .noEqualsSign text => "Invalid key=value pair: " ++ text
  | .noName text => "Missing variable name in: " ++ text

namespace Assignment

/-- How deep brackets may nest in a value that is read as JSON. -/
def nestingBound : Nat := 128

/-- The value is JSON if it reads as JSON, and else a string. -/
def valueOf (text : String) : Value := (Json.read? (some nestingBound) text).getD (.str text)

/-- Reads an assignment. The name ends at the first equals sign. -/
def read (text : String) : Except AssignmentError Assignment :=
  match text.toList.span (· ≠ '=') with
  | (_, []) => .error (.noEqualsSign text)
  | (name, _ :: value) =>
    if name.isEmpty then .error (.noName text)
    else .ok ⟨String.ofList name, valueOf (String.ofList value)⟩

end Assignment

end Pipewright
