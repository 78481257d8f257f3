import Pipewright.Json.Number

/-!
# Reading JSON

`read?` accepts the grammar of JSON and nothing else. Of two entries with one key the later counts. A bound
may be set on how deeply brackets nest.
-/
namespace Pipewright.Json

/-- Blanks between tokens. -/
def isGap (c : Char) : Bool := c = ' ' || c = '\t' || c = '\n' || c = '\r'

def skip (cs : List Char) : List Char := cs.dropWhile isGap

/-- The exponent part of a literal, if there is one. -/
def exponentPart? : List Char → Option (Option Int × List Char)
  | [] => some (none, [])
  | c :: rest =>
    if c = 'e' || c = 'E' then
      let (negative, rest) := match rest with
        | '-' :: rest => (true, rest)
        | '+' :: rest => (false, rest)
        | rest => (false, rest)
      let (ds, rest) := rest.span Char.isDigit
      if ds.isEmpty then none
      else
        let n : Int := Decimal.digitsValue ds
        some (some (if negative then -n else n), rest)
    else some (none, c :: rest)

/-- A number literal: no leading zeros, digits on both sides of a point. -/
def literal? (cs : List Char) : Option (Number × List Char) := do
  let (negative, cs) := match cs with
    | '-' :: cs => (true, cs)
    | cs => (false, cs)
  let (whole, cs) := cs.span Char.isDigit
  let leadingZero := match whole with
    | '0' :: _ :: _ => true
    | _ => false
  if whole.isEmpty || leadingZero then none
  else
    let (pointed, fraction, cs) := match cs with
      | '.' :: cs => let (fraction, cs) := cs.span Char.isDigit; (true, fraction, cs)
      | cs => (false, [], cs)
    if pointed && fraction.isEmpty then none
    else
      let (exponent, cs) ← exponentPart? cs
      let n ← number? negative whole fraction exponent
      some (n, cs)

def hexValue? (c : Char) : Option Nat :=
  let n := c.toNat
  if c.isDigit then some (n - '0'.toNat)
  else if 'a' ≤ c && c ≤ 'f' then some (n - 'a'.toNat + 10)
  else if 'A' ≤ c && c ≤ 'F' then some (n - 'A'.toNat + 10)
  else none

def hex4? (a b c d : Char) : Option Nat := do
  let a ← hexValue? a
  let b ← hexValue? b
  let c ← hexValue? c
  let d ← hexValue? d
  some (((a * 16 + b) * 16 + c) * 16 + d)

/-- The character that stands behind a backslash in a short escape. -/
def shortEscape? : Char → Option Char
  | '"' => some '"'
  | '\\' => some '\\'
  | '/' => some '/'
  | 'b' => some (Char.ofNat 8)
  | 'f' => some (Char.ofNat 12)
  | 'n' => some '\n'
  | 'r' => some '\r'
  | 't' => some '\t'
  | _ => none

/-- The rest of a string behind its opening quote, and what follows its closing quote. Characters beyond
16 bits may be written as a pair of surrogates; half a pair is no character. -/
def string? : List Char → Option (List Char × List Char)
  | [] => none
  | '"' :: rest => some ([], rest)
  | '\\' :: 'u' :: a :: b :: c :: d :: rest => do
    let unit ← hex4? a b c d
    if unit < 0xD800 || 0xE000 ≤ unit then
      let (s, rest) ← string? rest
      some (Char.ofNat unit :: s, rest)
    else if unit < 0xDC00 then
      match rest with
      | '\\' :: 'u' :: a :: b :: c :: d :: rest =>
        let low ← hex4? a b c d
        if 0xDC00 ≤ low && low < 0xE000 then
          let (s, rest) ← string? rest
          some (Char.ofNat (0x10000 + (unit - 0xD800) * 0x400 + (low - 0xDC00)) :: s, rest)
        else none
      | _ => none
    else none
  | '\\' :: c :: rest => do
    let c ← shortEscape? c
    let (s, rest) ← string? rest
    some (c :: s, rest)
  | c :: rest => do
    if c.toNat < 32 then none
    else
      let (s, rest) ← string? rest
      some (c :: s, rest)

/-- A word that stands for a value. -/
def word? (word : String) (v : Value) (cs : List Char) : Option (Value × List Char) :=
  if word.toList.isPrefixOf cs then some (v, cs.drop word.length) else none

/-- Whether one more bracket may open below `depth` others. -/
def mayOpen (bound : Option Nat) (depth : Nat) : Bool := bound.all (depth + 1 < ·)

mutual

/-- One value, and the text behind it. Each call uses up a unit of fuel. -/
def value? (bound : Option Nat) : Nat → Nat → List Char → Option (Value × List Char)
  | 0, _, _ => none
  | fuel + 1, depth, cs =>
    match skip cs with
    | '[' :: rest =>
      if mayOpen bound depth then
        match skip rest with
        | ']' :: rest => some (.arr [], rest)
        | rest => do
          let (items, rest) ← items? bound fuel (depth + 1) rest
          some (.arr items, rest)
      else none
    | '\x7b' :: rest =>
      if mayOpen bound depth then
        match skip rest with
        | '\x7d' :: rest => some (.obj [], rest)
        | rest => do
          let (fields, rest) ← fields? bound fuel (depth + 1) [] rest
          some (.obj fields, rest)
      else none
    | '"' :: rest => do
      let (s, rest) ← string? rest
      some (.str (String.ofList s), rest)
    | 'n' :: rest => word? "null" .null ('n' :: rest)
    | 't' :: rest => word? "true" (.bool true) ('t' :: rest)
    | 'f' :: rest => word? "false" (.bool false) ('f' :: rest)
    | rest => do
      let (n, rest) ← literal? rest
      some (.num n, rest)

/-- The items of an array that is not empty, up to and with its closing bracket. -/
def items? (bound : Option Nat) : Nat → Nat → List Char → Option (List Value × List Char)
  | 0, _, _ => none
  | fuel + 1, depth, cs => do
    let (v, rest) ← value? bound fuel depth cs
    match skip rest with
    | ',' :: rest =>
      let (items, rest) ← items? bound fuel depth rest
      some (v :: items, rest)
    | ']' :: rest => some ([v], rest)
    | _ => none

/-- The entries of an object that is not empty, added to those already read. -/
def fields? (bound : Option Nat) : Nat → Nat → Fields Value → List Char → Option (Fields Value × List Char)
  | 0, _, _, _ => none
  | fuel + 1, depth, done, cs => do
    match skip cs with
    | '"' :: rest =>
      let (key, rest) ← string? rest
      match skip rest with
      | ':' :: rest =>
        let (v, rest) ← value? bound fuel depth rest
        let done := Fields.insert (String.ofList key) v done
        match skip rest with
        | ',' :: rest => fields? bound fuel depth done rest
        | '\x7d' :: rest => some (done, rest)
        | _ => none
      | _ => none
    | _ => none

end

/-- The value that a text holds, with nothing but blanks around it. A character takes at most two calls. -/
def read? (bound : Option Nat) (text : String) : Option Value := do
  let cs := text.toList
  let (v, rest) ← value? bound (2 * cs.length + 2) 0 cs
  if (skip rest).isEmpty then some v else none

end Pipewright.Json
