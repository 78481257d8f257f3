import Pipewright.Text.CaseData
import Pipewright.Text.Ranges

/-!
# Upper and lower case

Full case mapping: a character may become several, and a capital sigma at the end of a word becomes the
final form. No language has rules of its own.
-/
namespace Pipewright.Text

def CaseRun.contains (run : CaseRun) (n : Nat) : Bool :=
  run.first ≤ n && n ≤ run.last && (n - run.first) % run.step == 0

/-- A character in the other case, by a table of several-character mappings and one of runs. -/
def mapCase (words : List (Nat × List Nat)) (runs : List CaseRun) (c : Char) : List Char :=
  match words.find? (·.1 == c.toNat) with
  | some (_, mapped) => mapped.map Char.ofNat
  | none =>
    match runs.find? (·.contains c.toNat) with
    | some run => [Char.ofNat (c.toNat + run.offset).toNat]
    | none => [c]

def upperChar (c : Char) : List Char := mapCase upperWords upperRuns c

def lowerChar (c : Char) : List Char := mapCase lowerWords lowerRuns c

/-- Whether the first character that is not passed over has case. -/
def meetsCased (cs : List Char) : Bool :=
  match cs.dropWhile (inRanges ignorableRanges) with
  | c :: _ => inRanges casedRanges c
  | [] => false

def uppercase (cs : List Char) : List Char := cs.flatMap upperChar

/-- The lower case of the rest of a text; `before` is what precedes it, nearest character first. -/
def lowerAfter (before : List Char) : List Char → List Char
  | [] => []
  | c :: rest =>
    let mapped :=
      if c = 'Σ' then [if meetsCased before && !meetsCased rest then 'ς' else 'σ'] else lowerChar c
    mapped ++ lowerAfter (c :: before) rest

def lowercase (cs : List Char) : List Char := lowerAfter [] cs

end Pipewright.Text
