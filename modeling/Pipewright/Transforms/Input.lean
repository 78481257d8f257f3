import Pipewright.Value.Coerce
import Pipewright.RunError

/-!
# Inputs and parameters of transforms

What a transform may ask of its input and parameters, and the faults it finds in them. A parameter of the
wrong kind counts as absent where text is asked for, and is a fault where an integer is.
-/
namespace Pipewright.Transforms

/-- The parameters of a transform, by name. -/
abbrev Params := Fields Value

/-- Why a transform cannot do its work. -/
inductive Fault where
  | notArray (got : Value.Kind)
  | notString (got : Value.Kind)
  | notCollection (got : Value.Kind)
  | missing (parameter : String)
  | notInteger (parameter : String)
  | sortOrder (given : String)
  | batchSize
  | negativeDepth
  | emptySeparator
  | mixedMerge (left right : Value.Kind)
  /-- A comparison was asked for by a name that no operator has. -/
  | operator (name : String)
deriving DecidableEq

namespace Fault

def message : Fault → String
  | .notArray got => "expected an array, got " ++ got.name
  | .notString got => "expected a string, got " ++ got.name
  | .notCollection got => "expected an object or array, got " ++ got.name
  | .missing parameter => s!"missing '{parameter}' parameter"
  | .notInteger parameter => s!"parameter '{parameter}' must be an integer"
  | .sortOrder given => s!"unknown sort order '{given}'"
  | .batchSize => "parameter 'size' must be at least 1"
  | .negativeDepth => "parameter 'depth' must not be negative"
  | .emptySeparator => "separator must not be empty"
  | .mixedMerge left right => "cannot merge " ++ left.name ++ " with " ++ right.name
  | .operator name => s!"unknown operator '{name}'"

/-- The error of a run in which a transform of this name meets the fault. -/
def toError (transform : String) : Fault → RunError
  | .operator name => .unknownOperator name
  | fault => .transformInput transform fault.message

end Fault

def array : Value → Except Fault (List Value)
  | .arr items => .ok items
  | v => .error (.notArray v.kind)

def string : Value → Except Fault (List Char)
  | .str s => .ok s.toList
  | v => .error (.notString v.kind)

/-- A parameter that is text. -/
def textParam (params : Params) (name : String) : Option String := (Fields.get? name params).bind Value.str?

/-- A parameter that is text and has to be there. -/
def requiredText (params : Params) (name : String) : Except Fault String :=
  match textParam params name with
  | some s => .ok s
  | none => .error (.missing name)

/-- The 64-bit integer that a value gives as a parameter: an integer in range, a whole number beyond it or a
whole double, both cut to the range, or a string that reads as one. -/
def parameterInteger? : Value → Option Int
  | .num (.int n) => some (Text.clampInt64 n)
  | .num (.float x) => if x.isIntegral then some (Text.clampInt64 x.truncate) else none
  | .str s => Text.readInt64? (Text.trim s.toList)
  | _ => none

/-- A parameter that is an integer. Null counts as absent. -/
def intParam (params : Params) (name : String) : Except Fault (Option Int) :=
  match Fields.get? name params with
  | none | some .null => .ok none
  | some v =>
    match parameterInteger? v with
    | some n => .ok (some n)
    | none => .error (.notInteger name)

end Pipewright.Transforms
