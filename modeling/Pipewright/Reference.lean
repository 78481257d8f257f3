import Pipewright.RunError
import Pipewright.Scope
import Pipewright.Text.Pattern

/-!
# References

A string of the form `$name.part.part` stands for a value of the scope. Resolving a value replaces every
such string in it; strings that merely contain one stay as they are, and what is put in is not looked
through again.
-/
namespace Pipewright

/-- A variable and a path below it. -/
structure Reference where
  root : String
  path : List String
deriving DecidableEq

namespace Reference

/-- The characters that a name can begin with. -/
def nameStart : List (Char × Char) := [('A', 'Z'), ('a', 'z'), ('_', '_')]

def nameChar : List (Char × Char) := [('A', 'Z'), ('a', 'z'), ('0', '9'), ('_', '_')]

def partChar : List (Char × Char) := [('A', 'Z'), ('a', 'z'), ('0', '9'), ('_', '_'), ('-', '-')]

/-- The pattern `^\$([A-Za-z_][A-Za-z0-9_]*)((?:\.[A-Za-z0-9_\-]+)*)$`. -/
def pattern : Text.Pattern :=
  .seq .start <| .seq (.oneOf [('$', '$')]) <|
    .seq (.group 1 (.seq (.oneOf nameStart) (.many (.oneOf nameChar)))) <|
      .seq (.group 2 (.many (.seq (.oneOf [('.', '.')]) (.seq (.oneOf partChar) (.many (.oneOf partChar)))))) .stop

/-- Reads a whole text as a reference. The first group is the variable; the second, cut at its dots, is the path, with
an empty part in front of its first dot. -/
def parse? (text : String) : Option Reference := do
  let found ← pattern.find? text.toList
  let root ← found.group? 1
  let parts := Text.split ['.'] ((found.group? 2).getD [])
  return ⟨String.ofList root, (parts.filter (!·.isEmpty)).map String.ofList⟩

/-- The text of a reference. -/
def text (r : Reference) : String := "$" ++ ".".intercalate (r.root :: r.path)

/-- The value that a reference stands for. An undefined variable is an error; a path that leads nowhere
below a defined one is null. -/
def resolve (scope : Scope) (r : Reference) : Except RunError Value :=
  match scope.lookup r.root r.path with
  | some v => .ok v
  | none => .error (.undefinedVariable r.root)

end Reference

namespace Value

mutual

/-- Replaces every reference in a value, items and entries in order; the first undefined variable decides. -/
def resolve (scope : Scope) : Value → Except RunError Value
  | .str s =>
    match Reference.parse? s with
    | some r => r.resolve scope
    | none => .ok (.str s)
  | .arr items => do return .arr (← resolveItems scope items)
  | .obj fields => do return .obj (← resolveFields scope fields)
  | v => .ok v

def resolveItems (scope : Scope) : List Value → Except RunError (List Value)
  | [] => .ok []
  | v :: rest => do
    let v ← resolve scope v
    let rest ← resolveItems scope rest
    return v :: rest

def resolveFields (scope : Scope) : List (String × Value) → Except RunError (List (String × Value))
  | [] => .ok []
  | (key, v) :: rest => do
    let v ← resolve scope v
    let rest ← resolveFields scope rest
    return (key, v) :: rest

end

end Value

end Pipewright
