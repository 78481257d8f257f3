import Pipewright.Value
import Pipewright.Text.Integer

/-!
# Numbers in JSON

A literal without a point or an exponent is an integer if 64 bits hold it, signed or not; any other number is
a double and must be finite.

A double is read in two steps: its digits as an integer, as many of them as 64 bits hold, and then one
multiplication or division by a power of ten. Each step is rounded by itself, so the result may be a
neighbour of the double that is nearest to the literal.
-/
namespace Pipewright.Json

/-- The integer that digits make behind those of `n`, up to the first digit that 64 bits do not hold, and the
digits from there on. -/
def takeDigits (n : Nat) : List Char → Nat × List Char
  | [] => (n, [])
  | c :: cs =>
    let longer := 10 * n + (c.toNat - '0'.toNat)
    if Text.fitsNat64 longer then takeDigits longer cs else (n, c :: cs)

/-- The greatest power of ten that is a finite double. -/
def greatestPower : Nat := 308

def powerOfTen (places : Nat) : Double := (Decimal.mk false 1 places).toDouble

/-- A magnitude divided by a power of ten. Beyond the greatest power this takes two divisions, and of a
magnitude below `2 ^ 64` more than two leave nothing. -/
def lower (x : Double) (places : Nat) : Double :=
  if places ≤ greatestPower then x / powerOfTen places
  else if places ≤ 2 * greatestPower then
    x / powerOfTen greatestPower / powerOfTen (places - greatestPower)
  else .finite (.zero false)

/-- A magnitude multiplied by a power of ten. -/
def raise (x : Double) (places : Nat) : Double :=
  if x = .finite (.zero false) then x
  else if places ≤ greatestPower then x * powerOfTen places
  else .infinite false

/-- The double of a literal, if it is finite. Digits before the point that 64 bits do not hold count as
zeros, and digits behind it as nothing. -/
def double? (negative : Bool) (whole fraction : List Char) (exponent : Int) : Option FiniteDouble :=
  let (n, dropped) := takeDigits 0 whole
  let (n, unused) := takeDigits n fraction
  let places : Int := exponent + dropped.length - (fraction.length - unused.length : Nat)
  let magnitude := if 0 ≤ places then raise (.ofInt n) places.toNat else lower (.ofInt n) (-places).toNat
  match magnitude with
  | .finite x => some { x with negative := negative }
  | _ => none

/-- The number of a literal that is already known to follow the grammar. -/
def number? (negative : Bool) (whole fraction : List Char) (exponent : Option Int) : Option Number :=
  let double := (double? negative whole fraction (exponent.getD 0)).map Number.float
  if fraction.isEmpty && exponent.isNone then
    let n := Decimal.digitsValue whole
    if negative then
      if n ≠ 0 && Text.fitsInt64 (-n) then some (.int (-n)) else double
    else if Text.fitsNat64 n then some (.int n)
    else double
  else double

end Pipewright.Json
