import Pipewright.Value

/-!
# Folding values

Computes from the leaves of a value upwards: what is known of an array or an object comes from what is known
of its parts.
-/
namespace Pipewright.Value

variable {α : Type}

mutual

/-- `leaf` judges null, booleans, numbers and strings, the other two put the parts together. -/
def fold (leaf : Value → α) (arr : List α → α) (obj : List (String × α) → α) : Value → α
  | .arr items => arr (foldItems leaf arr obj items)
  | .obj fields => obj (foldFields leaf arr obj fields)
  | .null => leaf .null
  | .bool b => leaf (.bool b)
  | .num n => leaf (.num n)
  | .str s => leaf (.str s)

def foldItems (leaf : Value → α) (arr : List α → α) (obj : List (String × α) → α) :
    List Value → List α
  | [] => []
  | v :: rest => fold leaf arr obj v :: foldItems leaf arr obj rest

def foldFields (leaf : Value → α) (arr : List α → α) (obj : List (String × α) → α) :
    List (String × Value) → List (String × α)
  | [] => []
  | (key, v) :: rest => (key, fold leaf arr obj v) :: foldFields leaf arr obj rest

end

end Pipewright.Value
