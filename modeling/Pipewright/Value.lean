import Pipewright.Double.Decimal
import Pipewright.Fields

/-!
# Values

The trees of data that pipelines read and write: null, booleans, numbers, strings, arrays and objects.
A number is an integer or a finite double, and the two are told apart. Objects are `Fields`, in order of key.
-/
namespace Pipewright

/-- A number: an integer, which a reader keeps to the range of 64 bits, signed or not, or a double. -/
inductive Number where
  | int (n : Int)
  | float (x : FiniteDouble)
deriving DecidableEq

namespace Number

/-- Equality of numbers of one kind; an integer never equals a double. -/
def same : Number → Number → Bool
  | .int m, .int n => m == n
  | .float x, .float y => x.same y
  | _, _ => false

def toDouble : Number → Double
  | .int n => Double.ofInt n
  | .float x => .finite x

def text : Number → String
  | .int n => toString n
  | .float x => String.ofList x.text

end Number

/-- A tree of data. -/
inductive Value where
  | null
  | bool (b : Bool)
  | num (n : Number)
  | str (s : String)
  | arr (items : List Value)
  | obj (fields : List (String × Value))

namespace Value

instance : Inhabited Value := ⟨.null⟩

def int (n : Int) : Value := .num (.int n)

/-- A count as a value. -/
def nat (n : Nat) : Value := .num (.int n)

/-- The kinds of value, smallest first in the order of values. -/
inductive Kind where
  | null
  | bool
  | number
  | string
  | array
  | object
deriving DecidableEq

namespace Kind

def name : Kind → String
  | .null => "null"
  | .bool => "bool"
  | .number => "number"
  | .string => "string"
  | .array => "array"
  | .object => "object"

def rank : Kind → Nat
  | .null => 0
  | .bool => 1
  | .number => 2
  | .string => 3
  | .array => 4
  | .object => 5

end Kind

def kind : Value → Kind
  | .null => .null
  | .bool _ => .bool
  | .num _ => .number
  | .str _ => .string
  | .arr _ => .array
  | .obj _ => .object

def isNull : Value → Bool
  | .null => true
  | _ => false

def str? : Value → Option String
  | .str s => some s
  | _ => none

def fields? : Value → Option (Fields Value)
  | .obj fields => some fields
  | _ => none

/-- Null, false, zero, the texts "" and "0", and empty arrays and objects are empty. -/
def isEmpty : Value → Bool
  | .null => true
  | .bool b => !b
  | .num (.int n) => n == 0
  | .num (.float x) => x.isZero
  | .str s => s == "" || s == "0"
  | .arr items => items.isEmpty
  | .obj fields => fields.isEmpty

def isTruthy (v : Value) : Bool := !v.isEmpty

mutual

/-- Strict equality: kinds are told apart, and so are integers and doubles; the two zeros are equal. -/
def same : Value → Value → Bool
  | .null, .null => true
  | .bool a, .bool b => a == b
  | .num a, .num b => a.same b
  | .str a, .str b => a == b
  | .arr xs, .arr ys => sameItems xs ys
  | .obj xs, .obj ys => sameFields xs ys
  | _, _ => false

def sameItems : List Value → List Value → Bool
  | [], [] => true
  | x :: xs, y :: ys => same x y && sameItems xs ys
  | _, _ => false

def sameFields : List (String × Value) → List (String × Value) → Bool
  | [], [] => true
  | (j, x) :: xs, (k, y) :: ys => j == k && same x y && sameFields xs ys
  | _, _ => false

end

instance : BEq Value := ⟨same⟩

mutual

/-- An estimate of the memory a value takes: 32 bytes a node, and the bytes of its strings and keys. -/
def size : Value → Nat
  | .null | .bool _ | .num _ => 32
  | .str s => 32 + s.utf8ByteSize
  | .arr items => 32 + sizeItems items
  | .obj fields => 32 + sizeFields fields

def sizeItems : List Value → Nat
  | [] => 0
  | v :: rest => size v + sizeItems rest

def sizeFields : List (String × Value) → Nat
  | [] => 0
  | (key, v) :: rest => key.utf8ByteSize + size v + sizeFields rest

end

end Value

end Pipewright
