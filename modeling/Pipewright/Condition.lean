import Pipewright.Reference
import Pipewright.Value.Compare
import Pipewright.Value.Coerce

/-!
# Conditions

A condition combines comparisons with `and`, `or` and `not`; a bare list is an `and`. Evaluation goes from
left to right and stops as soon as the answer is settled, so what comes later is neither resolved nor
compared.
-/
namespace Pipewright

/-- The comparisons that a condition can make. -/
inductive Operator where
  | equals
  | notEquals
  | greater
  | less
  | greaterOrEqual
  | lessOrEqual
  | contains
  | startsWith
  | endsWith
  | isIn
  | notIn
  | empty
  | notEmpty
  | null
  | notNull
deriving DecidableEq

namespace Operator

/-- Every operator with the names and symbols it goes by. -/
def spellings : List (Operator × List String) :=
  [(.equals, ["equals", "eq", "==", "==="]),
   (.notEquals, ["not_equals", "neq", "!=", "!=="]),
   (.greater, [">", "gt", "greater_than"]),
   (.less, ["<", "lt", "less_than"]),
   (.greaterOrEqual, [">=", "gte", "greater_than_or_equal", "greater_or_equal"]),
   (.lessOrEqual, ["<=", "lte", "less_than_or_equal", "less_or_equal"]),
   (.contains, ["contains"]),
   (.startsWith, ["starts_with"]),
   (.endsWith, ["ends_with"]),
   (.isIn, ["in"]),
   (.notIn, ["not_in"]),
   (.empty, ["empty", "is_empty"]),
   (.notEmpty, ["not_empty", "is_not_empty"]),
   (.null, ["null", "is_null"]),
   (.notNull, ["not_null", "is_not_null"])]

def parse? (name : String) : Option Operator :=
  (spellings.find? fun entry => entry.2.contains name).map Prod.fst

/-- The order of two values for the operators `<`, `<=`, `>` and `>=`: numbers and numeric strings as
numbers, two other strings by code point, all else not at all. -/
def order? (a b : Value) : Option Ordering :=
  match a.number?, b.number? with
  | some x, some y => Double.compare? x y
  | _, _ =>
    match a, b with
    | .str s, .str t => some (compare s t)
    | _, _ => none

/-- A test of two texts; it fails for values that are not both strings. -/
def onStrings (test : List Char → List Char → Bool) (a b : Value) : Bool :=
  match a, b with
  | .str s, .str t => test s.toList t.toList
  | _, _ => false

/-- A test of the items of an array; it fails for any other value. -/
def onItems (test : List Value → Bool) : Value → Bool
  | .arr items => test items
  | _ => false

/-- Whether an operator holds between two values. -/
def holds (op : Operator) (a b : Value) : Bool :=
  match op with
  | .equals => a.same b
  | .notEquals => !a.same b
  | .greater => (order? a b).any (·.isGT)
  | .less => (order? a b).any (·.isLT)
  | .greaterOrEqual => (order? a b).any (·.isGE)
  | .lessOrEqual => (order? a b).any (·.isLE)
  | .contains => onStrings (fun s t => Text.occursIn t s) a b
  | .startsWith => onStrings (fun s t => t.isPrefixOf s) a b
  | .endsWith => onStrings (fun s t => t.isSuffixOf s) a b
  | .isIn => onItems (·.any a.same) b
  | .notIn => onItems (fun items => !items.any a.same) b
  | .empty => a.isEmpty
  | .notEmpty => !a.isEmpty
  | .null => a.isNull
  | .notNull => !a.isNull

/-- The verdict of the operator of a name. -/
def evaluate (name : String) (a b : Value) : Except RunError Bool :=
  match parse? name with
  | some op => .ok (op.holds a b)
  | none => .error (.unknownOperator name)

end Operator

/-- One comparison; both sides may hold references. -/
structure Comparison where
  field : Value
  operator : String
  value : Value

def Comparison.evaluate (scope : Scope) (c : Comparison) : Except RunError Bool := do
  let left ← c.field.resolve scope
  let right ← c.value.resolve scope
  Operator.evaluate c.operator left right

/-- A condition of a conditional step. -/
inductive Condition where
  | all (conditions : List Condition)
  | any (conditions : List Condition)
  | negate (condition : Condition)
  | compare (comparison : Comparison)
  /-- A bare list, which means the same as `all`. -/
  | list (conditions : List Condition)

namespace Condition

mutual

def evaluate (scope : Scope) : Condition → Except RunError Bool
  | .all conditions | .list conditions => evaluateAll scope conditions
  | .any conditions => evaluateAny scope conditions
  | .negate condition => do return !(← evaluate scope condition)
  | .compare comparison => comparison.evaluate scope

/-- True unless a condition is false; those behind it do not count. -/
def evaluateAll (scope : Scope) : List Condition → Except RunError Bool
  | [] => .ok true
  | c :: rest => do
    let b ← evaluate scope c
    if b then evaluateAll scope rest else .ok false

/-- False unless a condition is true; those behind it do not count. -/
def evaluateAny (scope : Scope) : List Condition → Except RunError Bool
  | [] => .ok false
  | c :: rest => do
    let b ← evaluate scope c
    if b then .ok true else evaluateAny scope rest

end

end Condition

end Pipewright
