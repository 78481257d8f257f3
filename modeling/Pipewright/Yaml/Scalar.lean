import Pipewright.Datum
import Pipewright.Json.Reader
import Pipewright.Yaml.Cursor

/-!
# YAML scalars

A scalar is written plainly or in single or double quotes. A quoted one is a string. The text of a plain one
decides what it stands for: null, a boolean, an integer, a float or a string.
-/
namespace Pipewright.Yaml

structure Scalar where
  text : String
  plain : Bool
deriving DecidableEq

/-! ### White space inside scalars -/

/-- White space of a scalar that may still turn out to end it: blanks within a line, or line ends. Of line
ends only the first is told apart; it is empty if it was escaped. -/
inductive Gap where
  | blanks (cs : List Char)
  | lines (first more : List Char)

namespace Gap

def none : Gap := .blanks []

/-- Blanks beside a line end do not count. -/
def add (c : Char) : Gap → Gap
  | .blanks cs => if isBreak c then .lines [c] [] else .blanks (cs ++ [c])
  | .lines first more => if isBreak c then .lines first (more ++ [c]) else .lines first more

/-- What the white space stands for: a single line feed is folded to a blank, and of several the first goes. -/
def text : Gap → List Char
  | .blanks cs => cs
  | .lines ['\n'] [] => [' ']
  | .lines ['\n'] more => more
  | .lines first more => first ++ more

def isNone : Gap → Bool
  | .blanks cs => cs.isEmpty
  | .lines .. => false

def hasLineEnd : Gap → Bool
  | .blanks _ => false
  | .lines .. => true

end Gap

/-! ### Reading -/

/-- Whether a plain scalar can begin with a character that others follow. -/
def startsPlain (flow : Bool) (c : Char) (cs : List Char) : Bool :=
  if c = '-' then !endsToken cs
  else if c = '?' || c = ':' then !flow && !endsToken cs
  else !(isGap c || [',', '[', ']', '\x7b', '\x7d', '#', '&', '*', '!', '|', '>', '\'', '"', '%', '@',
    '\x60'].contains c)

/-- The brackets and commas of flow collections. -/
def isFlowMark (c : Char) : Bool := [',', '[', ']', '\x7b', '\x7d'].contains c

/-- Whether a plain scalar ends before a character: at a comment, at a colon that makes it a key, at a mark of
the flow collection around it, or on a line that is indented less than the block around it. -/
def endsPlain (flow : Bool) (margin : Nat) (gap : Gap) (place : Place) (c : Char) (cs : List Char) : Bool :=
  (!gap.isNone && c = '#') || (gap.hasLineEnd && !flow && place.column < margin) ||
    (c = ':' && endsToken cs) || (flow && isFlowMark c)

/-- The rest of a plain scalar. -/
def plainFrom (flow : Bool) (margin : Nat) : Gap → Place → List Char → Option (List Char × Cursor)
  | _, place, [] => some ([], ⟨place, []⟩)
  | gap, place, c :: cs =>
    if isGap c then
      if c = '\t' && gap.hasLineEnd && place.column < margin then none
      else plainFrom flow margin (gap.add c) (place.after c) cs
    else if endsPlain flow margin gap place c cs then some ([], ⟨place, c :: cs⟩)
    else if flow && c = ':' && cs.head?.any (fun d => d = '?' || isFlowMark d) then none
    else do
      let (text, cursor) ← plainFrom flow margin .none (place.after c) cs
      some (gap.text ++ c :: text, cursor)

/-- The rest of a scalar in single quotes; a quote in it is written twice. -/
def singleFrom : Gap → Place → List Char → Option (List Char × Cursor)
  | _, _, [] => none
  | gap, place, '\'' :: '\'' :: cs => do
    let (text, cursor) ← singleFrom .none ((place.after '\'').after '\'') cs
    some (gap.text ++ '\'' :: text, cursor)
  | gap, place, c :: cs =>
    if c = '\'' then some (gap.text, ⟨place.after c, cs⟩)
    else if isGap c then singleFrom (gap.add c) (place.after c) cs
    else do
      let (text, cursor) ← singleFrom .none (place.after c) cs
      some (gap.text ++ c :: text, cursor)

/-- The character that stands behind a backslash in a short escape. -/
def shortEscape? (c : Char) : Option Char :=
  ([('0', 0x00), ('a', 0x07), ('b', 0x08), ('t', 0x09), ('\t', 0x09), ('n', 0x0A), ('v', 0x0B), ('f', 0x0C),
    ('r', 0x0D), ('e', 0x1B), (' ', 0x20), ('"', 0x22), ('/', 0x2F), ('\\', 0x5C), ('N', 0x85), ('_', 0xA0),
    ('L', 0x2028), ('P', 0x2029)].lookup c).map Char.ofNat

/-- The character with a number in hexadecimal digits. Surrogates are no characters. -/
def charOf? (digits : List Char) : Option Char := do
  let values ← digits.mapM Json.hexValue?
  let n := values.foldl (fun n d => 16 * n + d) 0
  if n.isValidChar then some (Char.ofNat n) else none

/-- The rest of a scalar in double quotes. -/
def doubleFrom : Gap → Place → List Char → Option (List Char × Cursor)
  | _, _, [] => none
  | gap, place, '\\' :: 'x' :: a :: b :: cs => do
    let c ← charOf? [a, b]
    let (text, cursor) ← doubleFrom .none (['\\', 'x', a, b].foldl Place.after place) cs
    some (gap.text ++ c :: text, cursor)
  | gap, place, '\\' :: 'u' :: a :: b :: c :: d :: cs => do
    let e ← charOf? [a, b, c, d]
    let (text, cursor) ← doubleFrom .none (['\\', 'u', a, b, c, d].foldl Place.after place) cs
    some (gap.text ++ e :: text, cursor)
  | gap, place, '\\' :: 'U' :: a :: b :: c :: d :: e :: f :: g :: h :: cs => do
    let i ← charOf? [a, b, c, d, e, f, g, h]
    let (text, cursor) ←
      doubleFrom .none (['\\', 'U', a, b, c, d, e, f, g, h].foldl Place.after place) cs
    some (gap.text ++ i :: text, cursor)
  | gap, place, '\\' :: c :: cs =>
    if isBreak c then do
      let (text, cursor) ← doubleFrom (.lines [] []) ((place.after '\\').after c) cs
      some (gap.text ++ text, cursor)
    else do
      let e ← shortEscape? c
      let (text, cursor) ← doubleFrom .none ((place.after '\\').after c) cs
      some (gap.text ++ e :: text, cursor)
  | gap, place, c :: cs =>
    if c = '"' then some (gap.text, ⟨place.after c, cs⟩)
    else if isGap c then doubleFrom (gap.add c) (place.after c) cs
    else do
      let (text, cursor) ← doubleFrom .none (place.after c) cs
      some (gap.text ++ c :: text, cursor)

namespace Scalar

/-- The plain scalar of nothing, which stands wherever a value is left out. -/
def missing : Scalar := ⟨"", true⟩

/-- The scalar that begins at a place. The lines of a plain scalar in a block reach at least to the margin. -/
def read? (flow : Bool) (margin : Nat) (cursor : Cursor) : Option (Scalar × Cursor) :=
  let scalar (plain : Bool) (found : List Char × Cursor) : Scalar × Cursor :=
    (⟨String.ofList found.1, plain⟩, found.2)
  match cursor.rest with
  | [] => none
  | c :: cs =>
    if c = '\'' then (singleFrom .none (cursor.place.after c) cs).map (scalar false)
    else if c = '"' then (doubleFrom .none (cursor.place.after c) cs).map (scalar false)
    else if startsPlain flow c cs then (plainFrom flow margin .none cursor.place (c :: cs)).map (scalar true)
    else none

end Scalar

/-! ### The meaning of plain scalars -/

/-- A nonempty run of digits in a base. -/
def digitsIn? (base : Nat) (cs : List Char) : Option Nat := do
  let digits ← cs.mapM Json.hexValue?
  if digits.isEmpty || !digits.all (· < base) then none
  else some (digits.foldl (fun n d => base * n + d) 0)

/-- Whether digits are written with a needless zero in front. -/
def hasLeadingZero : List Char → Bool
  | '0' :: d :: cs => (d :: cs).all Char.isDigit
  | _ => false

/-- An integer without sign: decimal, or in base 16, 8 or 2 behind `0x`, `0o` or `0b`. -/
def magnitude? : List Char → Option Nat
  | '0' :: 'x' :: cs => digitsIn? 16 cs
  | '0' :: 'o' :: cs => digitsIn? 8 cs
  | '0' :: 'b' :: cs => digitsIn? 2 cs
  | cs => if hasLeadingZero cs then none else digitsIn? 10 cs

def integer? : List Char → Option Int
  | '-' :: cs => (magnitude? cs).map fun n => -(n : Int)
  | '+' :: cs => (magnitude? cs).map Int.ofNat
  | cs => (magnitude? cs).map Int.ofNat

def dropSign : List Char → List Char
  | c :: cs => if c = '-' || c = '+' then cs else c :: cs
  | [] => []

/-- A float: a finite decimal, or an infinity or not-a-number by name, which no value holds. -/
def float? (cs : List Char) : Option Value :=
  let body := match cs with
    | '+' :: cs => cs
    | cs => cs
  let name := String.ofList cs
  if (cs.head? = some '+' && (body.head? = some '+' || body.head? = some '-')) || hasLeadingZero (dropSign cs)
  then none
  else if [".inf", ".Inf", ".INF"].contains (String.ofList body) || ["-.inf", "-.Inf", "-.INF"].contains name ||
      [".nan", ".NaN", ".NAN"].contains name then some .null
  else
    match Double.read? body with
    | some (.finite x) => some (.num (.float x))
    | _ => none

/-- The integers that 64 bits hold, signed or not. -/
def fits64 (n : Int) : Bool := -9223372036854775808 ≤ n && n < 18446744073709551616

/-- The integers that 128 bits hold, signed or not. -/
def fits128 (n : Int) : Bool :=
  -170141183460469231731687303715884105728 ≤ n && n < 340282366920938463463374607431768211456

namespace Scalar

/-- What a scalar stands for. An integer that takes more than 64 bits is refused, and one that takes more than
128 is read as a float. -/
def value? (s : Scalar) : Option Value :=
  if !s.plain then some (.str s.text)
  else if ["", "null", "Null", "NULL", "~"].contains s.text then some .null
  else if ["true", "True", "TRUE"].contains s.text then some (.bool true)
  else if ["false", "False", "FALSE"].contains s.text then some (.bool false)
  else
    let cs := s.text.toList
    let other := (float? cs).getD (.str s.text)
    match integer? cs with
    | some n => if fits64 n then some (.int n) else if fits128 n then none else some other
    | none => some other

/-- What a scalar is as a key. An integer behind a minus sign is not a natural number, be it zero. -/
def key (s : Scalar) : DatumKey :=
  match s.value? with
  | some (.str text) => .name text
  | some (.num (.int (.ofNat n))) => if s.text.startsWith "-" then .other else .number n
  | _ => .other

end Scalar

end Pipewright.Yaml
