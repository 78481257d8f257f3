import Pipewright.Transforms.Input
import Pipewright.Text.Case
import Pipewright.Text.Split

/-!
# Transforms of text

Joining and splitting, trimming, and upper and lower case.
-/
namespace Pipewright.Transforms

/-- The texts of the items with a separator between them. -/
def join (params : Params) (items : List Value) : Value :=
  .str (((textParam params "separator").getD ", ").intercalate (items.map Value.display))

/-- The parts of a text; a positive limit bounds their number. -/
def split (params : Params) (cs : List Char) : Except Fault (List Value) := do
  let sep := ((textParam params "separator").getD ",").toList
  if sep.isEmpty then .error .emptySeparator
  else
    let limit ← intParam params "limit"
    let parts := match limit with
      | some limit => if 0 < limit then Text.splitAtMost limit.toNat sep cs else Text.split sep cs
      | none => Text.split sep cs
    return parts.map fun part => .str (String.ofList part)

/-- Drops white space, or the characters given, from both ends. -/
def trim (params : Params) (cs : List Char) : List Char :=
  match textParam params "characters" with
  | some set => Text.trimBy set.toList.contains cs
  | none => Text.trim cs

end Pipewright.Transforms
