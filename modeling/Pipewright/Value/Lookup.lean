import Pipewright.Value
import Pipewright.Text.Integer
import Pipewright.Text.Split

/-!
# Looking into values

A path of names leads into a value: a name selects the entry of an object, or the item of an array if it
reads as an index.
-/
namespace Pipewright.Value

/-- The part of a value that a name selects. -/
def child? (name : String) : Value → Option Value
  | .obj fields => Fields.get? name fields
  | .arr items => do
    let index ← Text.readNat64? name.toList
    items[index]?
  | _ => none

/-- The value at the end of a path, if every name on it selects something. -/
def follow? : List String → Value → Option Value
  | [], v => some v
  | name :: path, v => (v.child? name).bind (follow? path)

/-- The names of a dotted field; dots next to each other have an empty name between them. -/
def fieldPath (field : String) : List String := (Text.split ['.'] field.toList).map String.ofList

/-- The value of a dotted field. -/
def field? (field : String) (v : Value) : Option Value := v.follow? (fieldPath field)

/-- The value of a dotted field, or null. -/
def fieldOrNull (field : String) (v : Value) : Value := (v.field? field).getD .null

end Pipewright.Value
