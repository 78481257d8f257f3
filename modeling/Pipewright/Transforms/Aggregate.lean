import Pipewright.Transforms.Array

/-!
# Aggregates

Reductions of an array, or of one field of its items, to a single value.
-/
namespace Pipewright.Transforms

/-- The number of items or entries; a value that holds neither counts as none. -/
def count : Value → Nat
  | .arr items => items.length
  | .obj fields => fields.length
  | _ => 0

/-- The values to aggregate: the items, or their field. -/
def operands (params : Params) (items : List Value) : List Value :=
  items.map (keyOf (textParam params "field"))

/-- The sum of integers, as long as every partial sum is a 64-bit integer. -/
def exactSum (total : Int) : List Int → Option Int
  | [] => some total
  | n :: rest => if Text.fitsInt64 (total + n) then exactSum (total + n) rest else none

def sumDoubles (numbers : List Double) : Double := numbers.foldl (· + ·) (.finite (.zero false))

/-- The sum of the numeric values; others are passed over. Integers are added exactly, all else as doubles. -/
def sum (values : List Value) : Value :=
  let numeric := values.filter (·.number?.isSome)
  match (numeric.mapM Value.integer?).bind (exactSum 0) with
  | some total => .int total
  | none => .ofDouble (sumDoubles (numeric.filterMap Value.number?))

/-- The mean of the numeric values, zero if there are none. -/
def average (values : List Value) : Value :=
  let numbers := values.filterMap Value.number?
  if numbers.isEmpty then .int 0 else .ofDouble ((sumDoubles numbers).divNat numbers.length)

/-- The smaller of two values; of equal ones the earlier. -/
def lesser (a b : Value) : Value := if (Value.compare b a).isLT then b else a

/-- The greater of two values; of equal ones the later. -/
def greater (a b : Value) : Value := if (Value.compare b a).isLT then a else b

/-- Combines the values that are not null from the left; null if there are none. -/
def pick (choose : Value → Value → Value) (values : List Value) : Value :=
  match values.filter (!·.isNull) with
  | [] => .null
  | v :: rest => rest.foldl choose v

end Pipewright.Transforms
