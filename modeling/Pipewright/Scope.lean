import Pipewright.Value.Lookup

/-!
# Scopes

The variables that a running pipeline reads and writes. A scope is a plain value: whoever works on a copy
leaves the one it was copied from as it is.
-/
namespace Pipewright

/-- The variables of a pipeline, by name. -/
structure Scope where
  vars : Fields Value
  ordered : Fields.Ordered vars

namespace Scope

def empty : Scope := ⟨[], Fields.ordered_nil⟩

/-- Named values as variables; of two values of one name the later counts. -/
def ofFields (fields : Fields Value) : Scope := ⟨Fields.ofList fields, Fields.ordered_ofList fields⟩

/-- The entries of an object as variables; any other value has none. -/
def ofValue (v : Value) : Scope := ofFields (v.fields?.getD [])

def toValue (scope : Scope) : Value := .obj scope.vars

def get? (scope : Scope) (name : String) : Option Value := Fields.get? name scope.vars

/-- The value of a variable, null if it is not defined. -/
def getOrNull (scope : Scope) (name : String) : Value := (scope.get? name).getD .null

def contains (scope : Scope) (name : String) : Bool := Fields.contains name scope.vars

def set (scope : Scope) (name : String) (v : Value) : Scope :=
  ⟨Fields.insert name v scope.vars, Fields.ordered_insert name v scope.ordered⟩

def remove (scope : Scope) (name : String) : Scope :=
  ⟨Fields.erase name scope.vars, Fields.ordered_erase name scope.ordered⟩

/-- Gives a variable the binding it had, present or absent. -/
def restore (scope : Scope) (name : String) : Option Value → Scope
  | some v => scope.set name v
  | none => scope.remove name

/-- The value at a path below a variable: none if the variable is not defined, null if it is defined and the
path leads nowhere. -/
def lookup (scope : Scope) (root : String) (path : List String) : Option Value :=
  (scope.get? root).map fun v => (v.follow? path).getD .null

/-- An estimate of the memory that the variables take, in bytes. -/
def size (scope : Scope) : Nat := Value.sizeFields scope.vars

theorem contains_eq (scope : Scope) (name : String) : scope.contains name = (scope.get? name).isSome := rfl

theorem get?_set (scope : Scope) (key name : String) (v : Value) :
    (scope.set key v).get? name = if key = name then some v else scope.get? name :=
  Fields.get?_insert name key v scope.vars

@[simp] theorem get?_set_self (scope : Scope) (name : String) (v : Value) :
    (scope.set name v).get? name = some v := by
  rw [get?_set, if_pos rfl]

theorem get?_set_of_ne {key name : String} (h : key ≠ name) (scope : Scope) (v : Value) :
    (scope.set key v).get? name = scope.get? name := by
  rw [get?_set, if_neg h]

@[simp] theorem get?_remove_self (scope : Scope) (name : String) : (scope.remove name).get? name = none :=
  Fields.get?_erase_self name scope.ordered

theorem get?_remove_of_ne {key name : String} (h : key ≠ name) (scope : Scope) :
    (scope.remove key).get? name = scope.get? name :=
  Fields.get?_erase_of_ne h scope.vars

@[simp] theorem get?_restore_self (scope : Scope) (name : String) (former : Option Value) :
    (scope.restore name former).get? name = former := by
  cases former with
  | none => exact get?_remove_self scope name
  | some v => exact get?_set_self scope name v

theorem get?_restore_of_ne {key name : String} (h : key ≠ name) (scope : Scope) (former : Option Value) :
    (scope.restore key former).get? name = scope.get? name := by
  cases former with
  | none => exact get?_remove_of_ne h scope
  | some v => exact get?_set_of_ne h scope v

end Scope

end Pipewright
