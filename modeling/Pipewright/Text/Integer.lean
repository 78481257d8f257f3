import Pipewright.Double.Decimal

/-!
# Integers in text

Decimal integers of 64 bits: ASCII digits after an optional sign.
-/
namespace Pipewright.Text

/-- The range of signed 64-bit integers. -/
def fitsInt64 (n : Int) : Bool := -9223372036854775808 ≤ n && n ≤ 9223372036854775807

/-- The range of unsigned 64-bit integers. -/
def fitsNat64 (n : Nat) : Bool := n < 18446744073709551616

/-- The nearest signed 64-bit integer. -/
def clampInt64 (n : Int) : Int := max (-9223372036854775808) (min n 9223372036854775807)

/-- A nonempty run of digits. -/
def digits? (cs : List Char) : Option Nat :=
  if cs.isEmpty || !cs.all Char.isDigit then none else some (Decimal.digitsValue cs)

/-- An unsigned integer of 64 bits; a plus sign may stand before it. -/
def readNat64? (cs : List Char) : Option Nat :=
  let body := match cs with
    | '+' :: body => body
    | body => body
  (digits? body).filter fitsNat64

/-- A signed integer of 64 bits, with an optional sign of either kind. -/
def readInt64? (cs : List Char) : Option Int :=
  let n : Option Int := match cs with
    | '-' :: body => (digits? body).map fun n => -(n : Int)
    | '+' :: body => (digits? body).map Int.ofNat
    | body => (digits? body).map Int.ofNat
  n.filter fitsInt64

end Pipewright.Text
