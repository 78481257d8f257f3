/-!
# Cutting text at a separator

Separators are found from the left and do not overlap.
-/
namespace Pipewright.Text

/-- Puts a character in front of the first part. -/
def consHead (c : Char) : List (List Char) → List (List Char)
  | [] => [[c]]
  | part :: parts => (c :: part) :: parts

/-- The parts of a text between separators. `cuts` bounds how many separators are still used, and `skip`
counts the characters of the last one that are still to be passed over. -/
def splitFrom (sep : List Char) : Option Nat → Nat → List Char → List (List Char)
  | _, _, [] => [[]]
  | cuts, skip + 1, _ :: cs => splitFrom sep cuts skip cs
  | cuts, 0, c :: cs =>
    if cuts != some 0 && sep.isPrefixOf (c :: cs) then
      [] :: splitFrom sep (cuts.map (· - 1)) (sep.length - 1) cs
    else consHead c (splitFrom sep cuts 0 cs)

/-- All parts of a text; the separator is not empty. -/
def split (sep cs : List Char) : List (List Char) := splitFrom sep none 0 cs

/-- At most `parts` parts, the last of which holds the uncut rest. -/
def splitAtMost (parts : Nat) (sep cs : List Char) : List (List Char) := splitFrom sep (some (parts - 1)) 0 cs

/-- Whether a text occurs in another. -/
def occursIn (needle : List Char) : List Char → Bool
  | [] => needle.isEmpty
  | c :: cs => needle.isPrefixOf (c :: cs) || occursIn needle cs

end Pipewright.Text
