/-!
# Binary64 numbers

Every finite binary64 number is a whole multiple of the smallest positive one, `2 ^ -1074`. A finite
double is therefore a sign and a natural number of such units. Comparison is exact, arithmetic is exact on
integers with one rounding at the end, and no floating-point operation of the machine is used.
-/
namespace Pipewright

/-- A quotient rounded to the nearest integer; a half goes to the even neighbour. -/
def roundDiv (num den : Nat) : Nat :=
  let quotient := num / den
  let twice := 2 * (num % den)
  if twice < den then quotient
  else if den < twice then quotient + 1
  else if quotient % 2 = 0 then quotient
  else quotient + 1

namespace Double

/-- The number one, counted in units of `2 ^ -1074`. -/
def one : Nat := Nat.pow 2 1074

/-- Finite magnitudes stay below `2 ^ 1024`, which is this number of units. -/
def limit : Nat := Nat.pow 2 2098

/-- The gap between a magnitude and the next one above: 53 significant bits are kept. -/
def gap (units : Nat) : Nat := Nat.pow 2 (units.log2 - 52)

/-- The magnitudes that a finite double can have. -/
def Representable (units : Nat) : Prop := units < limit ∧ gap units ∣ units

instance (units : Nat) : Decidable (Representable units) :=
  inferInstanceAs (Decidable (_ ∧ _))

theorem representable_zero : Representable 0 := by decide +kernel

end Double

/-- A binary64 number that is neither infinite nor a NaN. -/
structure FiniteDouble where
  negative : Bool
  units : Nat
  representable : Double.Representable units
deriving DecidableEq

namespace FiniteDouble

/-- The signed number of units. Both zeros have the value 0. -/
def scaled (x : FiniteDouble) : Int := if x.negative then -x.units else x.units

def zero (negative : Bool) : FiniteDouble := ⟨negative, 0, Double.representable_zero⟩

/-- Equality of values: the two zeros are equal. -/
def same (x y : FiniteDouble) : Bool := x.scaled == y.scaled

def isZero (x : FiniteDouble) : Bool := x.units == 0

def isIntegral (x : FiniteDouble) : Bool := x.units % Double.one == 0

/-- The integer part, towards zero. -/
def truncate (x : FiniteDouble) : Int :=
  if x.negative then -(x.units / Double.one : Nat) else (x.units / Double.one : Nat)

end FiniteDouble

/-- A binary64 number; all NaNs are one. -/
inductive Double where
  | nan
  | infinite (negative : Bool)
  | finite (x : FiniteDouble)
deriving DecidableEq

namespace Double

/-- The double nearest to `num / den` units, ties to the even significand. Magnitudes from the limit on,
after rounding, become infinite. -/
def round (negative : Bool) (num den : Nat) : Double :=
  let step := gap (num / den)
  let units := roundDiv num (den * step) * step
  if h : Representable units then .finite ⟨negative, units, h⟩ else .infinite negative

def ofInt (n : Int) : Double := round (n < 0) (n.natAbs * one) 1

def isFinite : Double → Bool
  | .finite _ => true
  | _ => false

/-- Ordering of two doubles; none when one of them is a NaN. -/
def compare? : Double → Double → Option Ordering
  | .nan, _ | _, .nan => none
  | .infinite a, .infinite b =>
    some (if a == b then .eq else if a then .lt else .gt)
  | .infinite a, .finite _ => some (if a then .lt else .gt)
  | .finite _, .infinite b => some (if b then .gt else .lt)
  | .finite x, .finite y => some (compare x.scaled y.scaled)

/-- The correctly rounded sum. Opposite infinities have none; a sum of zero is negative only if both
summands are. -/
def add : Double → Double → Double
  | .nan, _ | _, .nan => .nan
  | .infinite a, .infinite b => if a == b then .infinite a else .nan
  | .infinite a, .finite _ => .infinite a
  | .finite _, .infinite b => .infinite b
  | .finite x, .finite y =>
    let total := x.scaled + y.scaled
    let negative := if total = 0 then x.negative && y.negative else total < 0
    round negative total.natAbs 1

/-- The correctly rounded product. -/
def mul : Double → Double → Double
  | .nan, _ | _, .nan => .nan
  | .infinite a, .infinite b => .infinite (a != b)
  | .infinite a, .finite y => if y.isZero then .nan else .infinite (a != y.negative)
  | .finite x, .infinite b => if x.isZero then .nan else .infinite (x.negative != b)
  | .finite x, .finite y => round (x.negative != y.negative) (x.units * y.units) one

/-- The correctly rounded quotient. -/
def div : Double → Double → Double
  | .nan, _ | _, .nan | .infinite _, .infinite _ => .nan
  | .infinite a, .finite y => .infinite (a != y.negative)
  | .finite x, .infinite b => .finite (.zero (x.negative != b))
  | .finite x, .finite y =>
    if y.isZero then if x.isZero then .nan else .infinite (x.negative != y.negative)
    else round (x.negative != y.negative) (x.units * one) y.units

/-- The correctly rounded quotient by a positive count. -/
def divNat (x : Double) (count : Nat) : Double :=
  match x with
  | .finite x => round x.negative x.units count
  | other => other

instance : Add Double := ⟨add⟩

instance : Mul Double := ⟨mul⟩

instance : Div Double := ⟨div⟩

end Double

end Pipewright
