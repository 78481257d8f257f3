/-!
# Classes of characters

A class of characters is given by closed ranges of code points.
-/
namespace Pipewright.Text

def inRanges (ranges : List (Nat × Nat)) (c : Char) : Bool :=
  ranges.any fun (low, high) => low ≤ c.toNat && c.toNat ≤ high

end Pipewright.Text
