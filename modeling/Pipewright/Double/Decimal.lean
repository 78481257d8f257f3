import Pipewright.Double

/-!
# Decimals: reading and writing doubles

A decimal is read exactly and rounded once. A double is written with the fewest digits that identify it
(`shortest`), laid out positionally for moderate exponents and with an exponent otherwise, or with a fixed
number of places (`fixed`).
-/
namespace Pipewright

/-- The number `± digits * 10 ^ exponent`. -/
structure Decimal where
  negative : Bool
  digits : Nat
  exponent : Int
deriving DecidableEq

namespace Decimal

/-- The value of a run of ASCII digits. -/
def digitsValue (ds : List Char) : Nat :=
  ds.foldl (fun n c => 10 * n + (c.toNat - '0'.toNat)) 0

/-- The nearest double. Exponents far outside the range are settled without computing the power. -/
def toDouble (d : Decimal) : Double :=
  if d.digits = 0 then .finite (.zero d.negative)
  else if 400 < d.exponent then .infinite d.negative
  else if d.exponent + d.digits.log2 + 400 < 0 then .finite (.zero d.negative)
  else if 0 ≤ d.exponent then
    Double.round d.negative (d.digits * Nat.pow 10 d.exponent.toNat * Double.one) 1
  else
    Double.round d.negative (d.digits * Double.one) (Nat.pow 10 (-d.exponent).toNat)

/-- Digits with an optional point, as one decimal. -/
def ofParts (negative : Bool) (whole fraction : List Char) (exponent : Int) : Decimal :=
  ⟨negative, digitsValue (whole ++ fraction), exponent - fraction.length⟩

/-- An exponent part: nothing, or `e` or `E`, an optional sign and at least one digit. -/
def exponent? : List Char → Option Int
  | [] => some 0
  | c :: rest =>
    if c = 'e' || c = 'E' then
      let (negative, ds) := match rest with
        | '-' :: ds => (true, ds)
        | '+' :: ds => (false, ds)
        | ds => (false, ds)
      if ds.isEmpty || !ds.all Char.isDigit then none
      else some (if negative then -(digitsValue ds : Int) else digitsValue ds)
    else none

/-- An unsigned decimal: digits with an optional point on either side of them, and an optional exponent. -/
def unsigned? (negative : Bool) (cs : List Char) : Option Decimal :=
  let (whole, rest) := cs.span Char.isDigit
  let (fraction, rest) := match rest with
    | '.' :: rest => rest.span Char.isDigit
    | rest => ([], rest)
  if whole.isEmpty && fraction.isEmpty then none
  else (exponent? rest).map (ofParts negative whole fraction)

end Decimal

namespace Double

/-- The names of the values that are not finite, in any case. -/
def special? (negative : Bool) (cs : List Char) : Option Double :=
  let name := String.ofList (cs.map Char.toLower)
  if name = "inf" || name = "infinity" then some (.infinite negative)
  else if name = "nan" then some .nan
  else none

/-- Reads a double: an optional sign, then a decimal or the name of a value that is not finite. -/
def read? (cs : List Char) : Option Double :=
  let (negative, body) := match cs with
    | '-' :: body => (true, body)
    | '+' :: body => (false, body)
    | body => (false, body)
  match Decimal.unsigned? negative body with
  | some d => some d.toDouble
  | none => special? negative body

end Double

namespace FiniteDouble

/-- Whether `digits * 10 ^ exponent` lies among the reals that round to a positive double: at most half a
gap away, ends included exactly when the significand is even. The gap below a power of two is half as
wide. All three numbers are compared in quarters of a unit. -/
def readsBack (units digits : Nat) (exponent : Int) : Bool :=
  let step := Double.gap units
  let below := if units = 4503599627370496 * step && 1 < step then step else 2 * step
  let scale := Nat.pow 10 (-exponent).toNat
  let low := (4 * units - below) * scale
  let high := (4 * units + 2 * step) * scale
  let point := digits * Nat.pow 10 exponent.toNat * (4 * Double.one)
  if units / step % 2 = 0 then low ≤ point && point ≤ high else low < point && point < high

/-- The multiple of `10 ^ exponent` at or below a magnitude, and whether the magnitude is nearer to the
next one (`gt`), nearer to this one (`lt`) or in the middle (`eq`). -/
def gridBelow (units : Nat) (exponent : Int) : Nat × Ordering :=
  let num := units * Nat.pow 10 (-exponent).toNat
  let den := Double.one * Nat.pow 10 exponent.toNat
  (num / den, compare (2 * (num % den)) den)

/-- The neighbour of a magnitude on a decimal grid that reads back, the nearer of two, of two equally near
the even one. -/
def onGrid? (units : Nat) (exponent : Int) : Option Nat :=
  let (below, side) := gridBelow units exponent
  match readsBack units below exponent, readsBack units (below + 1) exponent with
  | false, false => none
  | true, false => some below
  | false, true => some (below + 1)
  | true, true =>
    match side with
    | .lt => some below
    | .gt => some (below + 1)
    | .eq => some (if below % 2 = 0 then below else below + 1)

/-- The least exponent whose power of ten exceeds a positive magnitude. The estimate from the binary
logarithm is short by one at most. -/
def magnitude (units : Nat) : Int :=
  let estimate := (((units.log2 : Int) - 1074) * 30103).fdiv 100000
  let exceeds (k : Int) : Bool := units * Nat.pow 10 (-k).toNat < Double.one * Nat.pow 10 k.toNat
  if exceeds estimate then estimate
  else if exceeds (estimate + 1) then estimate + 1
  else estimate + 2

/-- The fewest digits that identify a positive magnitude, without trailing zeros, and the exponent of ten
just above its leading digit. -/
def shortest (units : Nat) : List Char × Int :=
  let k := magnitude units
  let found := (List.range 17).findSome? fun (n : Nat) =>
    (onGrid? units (k - (n + 1))).map fun digits => (digits, n + 1)
  let (digits, count) := found.getD ((gridBelow units (k - 17)).1, 17)
  let ds := Nat.toDigits 10 digits
  let shift : Int := (ds.length : Int) - count
  ((ds.reverse.dropWhile (· = '0')).reverse, k + shift)

private def zeros (n : Nat) : List Char := List.replicate n '0'

/-- Digits around a point; `k` is the place of the point after the first digit's front. -/
def positional (ds : List Char) (k : Int) : List Char :=
  if k ≤ 0 then '0' :: '.' :: zeros (-k).toNat ++ ds
  else if ds.length ≤ k then ds ++ zeros (k.toNat - ds.length) ++ ['.', '0']
  else ds.take k.toNat ++ '.' :: ds.drop k.toNat

/-- One digit before the point, and an exponent with its sign. -/
def scientific (ds : List Char) (k : Int) : List Char :=
  let mantissa := match ds with
    | d :: e :: rest => d :: '.' :: e :: rest
    | ds => ds
  let sign := if k ≤ 0 then '-' else '+'
  mantissa ++ 'e' :: sign :: Nat.toDigits 10 (k - 1).natAbs

/-- The text of a finite double: positional from `1e-5` up to `1e16`, otherwise with an exponent. A point
or an exponent always shows. -/
def text (x : FiniteDouble) : List Char :=
  let sign := if x.negative then ['-'] else []
  if x.units = 0 then sign ++ ['0', '.', '0']
  else
    let (ds, k) := shortest x.units
    sign ++ if -5 < k && k ≤ 16 then positional ds k else scientific ds k

/-- The text with a fixed number of places, rounded from the exact value; a half goes to the even digit. -/
def fixed (places : Nat) (x : FiniteDouble) : List Char :=
  let ds := Nat.toDigits 10 (roundDiv (x.units * Nat.pow 10 places) Double.one)
  let ds := zeros (places + 1 - ds.length) ++ ds
  let cut := ds.length - places
  (if x.negative then ['-'] else []) ++ ds.take cut ++
    (if places = 0 then [] else '.' :: ds.drop cut)

end FiniteDouble

/-- The text with a fixed number of places, or the name of a value that is not finite. -/
def Double.fixed (places : Nat) : Double → String
  | .nan => "NaN"
  | .infinite negative => if negative then "-inf" else "inf"
  | .finite x => String.ofList (x.fixed places)

end Pipewright
