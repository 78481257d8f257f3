import Pipewright.Value
import Pipewright.Json.Printer
import Pipewright.Text.Blank
import Pipewright.Text.Integer

/-!
# Values as numbers and as text

Numbers and the strings that spell one have a numeric view. A computed double becomes an integer again where
that loses nothing.
-/
namespace Pipewright

namespace Value

/-- The double of a number, or of a string that reads as one between blanks. -/
def number? : Value → Option Double
  | .num n => some n.toDouble
  | .str s => Double.read? (Text.trim s.toList)
  | _ => none

/-- The exact 64-bit integer of an integer, or of a string that reads as one between blanks. -/
def integer? : Value → Option Int
  | .num (.int n) => if Text.fitsInt64 n then some n else none
  | .str s => Text.readInt64? (Text.trim s.toList)
  | _ => none

/-- The value of a computed number: an integer if it is whole and below `2 ^ 63` in magnitude, null if it is
not finite. -/
def ofDouble : Double → Value
  | .finite x =>
    if x.isIntegral && x.truncate.natAbs < 9223372036854775808 then .int x.truncate else .num (.float x)
  | _ => .null

/-- The text of a value when it is joined to others: null and false are empty, true is `1`. -/
def display : Value → String
  | .null => ""
  | .bool b => if b then "1" else ""
  | .num n => n.text
  | .str s => s
  | v => Json.print v

/-- The text of a value in a summary: a string as it is, all else as JSON. -/
def describe : Value → String
  | .str s => s
  | v => Json.print v

end Value

end Pipewright
