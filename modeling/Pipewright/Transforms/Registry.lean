import Pipewright.Text.Quoted
import Pipewright.Transforms.Input

/-!
# Registries of transforms

A transform is a function of data and parameters, and a registry knows transforms by name. Any function may be
registered under any name, in place of the one that had it.
-/
namespace Pipewright

/-- A transform, as a registry holds it. -/
abbrev TransformFn := Value → Transforms.Params → Except RunError Value

/-- Transforms by the name that steps call them by. -/
abbrev Registry := Fields TransformFn

namespace Registry

def empty : Registry := []

def register (registry : Registry) (name : String) (transform : TransformFn) : Registry :=
  Fields.insert name transform registry

def has (registry : Registry) (name : String) : Bool := Fields.contains name registry

/-- The names in order. -/
def names (registry : Registry) : List String := Fields.keys registry

/-- The names in brackets, for inspection. -/
def describe (registry : Registry) : String :=
  "TransformRegistry \x7b transforms: [" ++ ", ".intercalate (registry.names.map Text.quoted) ++ "] \x7d"

/-- Applies the transform of a name. -/
def run (registry : Registry) (name : String) (data : Value) (params : Transforms.Params) :
    Except RunError Value :=
  match Fields.get? name registry with
  | none => .error (.unknownTransform name)
  | some transform => transform data params

example (n : Int) :
    let double : TransformFn := fun data _ =>
      match data with
      | .num (.int n) => .ok (.int (n * 2))
      | _ => .ok (.int 0)
    (empty.register "double" double).run "double" (.int n) [] = .ok (.int (n * 2)) := rfl

end Registry

end Pipewright
