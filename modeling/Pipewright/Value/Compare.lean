import Pipewright.Value

/-!
# The order of values

Values of different kinds are ordered by kind. Numbers are compared as doubles, strings by code point,
arrays item by item with the shorter first among equals, objects by size and then entry by entry.
-/
namespace Pipewright.Value

/-- The order of two numbers as doubles. Neither is a NaN, so they are always comparable. -/
def compareNumbers (a b : Number) : Ordering := (Double.compare? a.toDouble b.toDouble).getD .eq

mutual

def compare : Value → Value → Ordering
  | .null, .null => .eq
  | .bool a, .bool b => Ord.compare a b
  | .num a, .num b => compareNumbers a b
  | .str a, .str b => Ord.compare a b
  | .arr xs, .arr ys => compareItems xs ys
  | .obj xs, .obj ys => (Ord.compare xs.length ys.length).then (compareFields xs ys)
  | a, b => Ord.compare a.kind.rank b.kind.rank

/-- The first difference decides, then the length. -/
def compareItems : List Value → List Value → Ordering
  | [], [] => .eq
  | [], _ :: _ => .lt
  | _ :: _, [] => .gt
  | x :: xs, y :: ys => (compare x y).then (compareItems xs ys)

/-- The first entry that differs decides, its key before its value. -/
def compareFields : List (String × Value) → List (String × Value) → Ordering
  | (j, x) :: xs, (k, y) :: ys =>
    (Ord.compare j k).then ((compare x y).then (compareFields xs ys))
  | _, _ => .eq

end

end Pipewright.Value
