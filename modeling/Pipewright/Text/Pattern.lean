/-!
# Patterns

The regular expressions that the grammar of references needs: classes of characters, one pattern after another,
repetition, groups and the two anchors. Repetition is greedy. It reads as much as it can and gives back only what the
rest of the pattern cannot do without. A pattern is looked for from left to right in the whole of a text, so it is tied
to the ends by its anchors alone.
-/
namespace Pipewright.Text

/-- What to look for in a text. -/
inductive Pattern where
  /-- The beginning of the text. -/
  | start
  /-- The end of the text, which is not in front of a last line break. -/
  | stop
  /-- One character of a class, given by closed ranges. -/
  | oneOf (ranges : List (Char × Char))
  | seq (first second : Pattern)
  /-- Any number of rounds, and of those the most. -/
  | many (round : Pattern)
  /-- What is read is captured under a number. -/
  | group (number : Nat) (inner : Pattern)

/-- A text that is scanned up to a place: how many characters, those that are left, and what the groups have captured,
the latest first. -/
structure Scan where
  pos : Nat
  rest : List Char
  captured : List (Nat × List Char) := []

namespace Pattern

/-- At most so many rounds, from a scan on. A round that reads nothing is none. -/
def rounds (round : Scan → List Scan) : Nat → Scan → List Scan
  | 0, r => [r]
  | n + 1, r => ((round r).filter (r.pos < ·.pos)).flatMap (rounds round n) ++ [r]

/-- The ways to read on by a pattern, in the order in which they are tried. No more rounds are possible than characters
are left. -/
def ways : Pattern → Scan → List Scan
  | .start, r => if r.pos = 0 then [r] else []
  | .stop, r => if r.rest.isEmpty then [r] else []
  | .oneOf ranges, r =>
    match r.rest with
    | c :: rest =>
      if ranges.any fun (low, high) => low ≤ c && c ≤ high then [{ r with pos := r.pos + 1, rest := rest }] else []
    | [] => []
  | .seq first second, r => (first.ways r).flatMap second.ways
  | .many round, r => rounds round.ways r.rest.length r
  | .group number inner, r =>
    (inner.ways r).map fun after =>
      { after with captured := (number, r.rest.take (after.pos - r.pos)) :: after.captured }

/-- The first way to read the pattern from a place, or else from the nearest one after it. -/
def findFrom (p : Pattern) (pos : Nat) : List Char → Option Scan
  | [] => (p.ways { pos, rest := [] }).head?
  | c :: cs => (p.ways { pos, rest := c :: cs }).head? <|> p.findFrom (pos + 1) cs

/-- Looks for a pattern in a text. -/
def find? (p : Pattern) (text : List Char) : Option Scan := p.findFrom 0 text

end Pattern

/-- What a group captured last, if it took part. -/
def Scan.group? (r : Scan) (number : Nat) : Option (List Char) := r.captured.lookup number

end Pipewright.Text
