import Pipewright.Yaml.Scalar

/-!
# YAML tokens

A text is a list of tokens: scalars, the marks of flow collections, and the marks, beginnings and ends of
block collections, which follow from the columns of the text.

That a scalar or a flow collection is a key shows only at the colon behind it. So the lexer remembers where a
key may have begun, and puts the token of the key there when the colon comes. It counts the open brackets by
themselves, whatever stands between them: outside of all brackets the columns count.
-/
namespace Pipewright.Yaml

inductive Token where
  | scalar (s : Scalar)
  | openSeq
  | closeSeq
  | openMap
  | closeMap
  | comma
  /-- The dash of an item in a block sequence. -/
  | dash
  /-- What follows is a key. -/
  | key
  /-- What follows is the value of a key. -/
  | value
  | blockSeq
  | blockMap
  | blockEnd

/-- Where a key may have begun. -/
structure KeyStart where
  place : Place
  /-- How many tokens stand before. -/
  index : Nat
  /-- Whether a key has to begin here, in the column of the keys of a block mapping. -/
  required : Bool

namespace KeyStart

/-- How many bytes a key may have. -/
def reach : Nat := 1024

/-- Whether a colon makes a key of what began here. A key stands on one line. -/
def reaches (start : KeyStart) (colon : Place) : Bool :=
  start.place.line = colon.line && colon.index ≤ start.place.index + reach

end KeyStart

/-- What the lexer knows between two tokens. -/
structure Lexer where
  cursor : Cursor
  /-- The tokens so far, the last one first. -/
  tokens : List Token
  /-- How many tokens there are so far. -/
  count : Nat
  /-- The columns of the block collections around, the innermost first. -/
  columns : List Nat
  /-- Where a key may have begun within the innermost bracket. -/
  start : Option KeyStart
  /-- Where keys may have begun outside of each open bracket, the innermost first. -/
  outer : List (Option KeyStart)

namespace Lexer

def ofText (cs : List Char) : Lexer := ⟨⟨.start, cs⟩, [], 0, [], none, []⟩

/-- Whether a bracket is open. -/
def inFlow (lexer : Lexer) : Bool := !lexer.outer.isEmpty

def emit (token : Token) (lexer : Lexer) : Lexer :=
  { lexer with tokens := token :: lexer.tokens, count := lexer.count + 1 }

/-- Emits the token of a single character, with the word whether a key may begin behind it. -/
def mark (token : Token) (fresh : Bool) (lexer : Lexer) : Lexer :=
  { lexer.emit token with cursor := lexer.cursor.next.setFresh fresh }

/-! ### Blocks -/

/-- Whether a block collection in a column lies deeper than those around. -/
def isDeeper (column : Nat) (lexer : Lexer) : Bool :=
  !lexer.inFlow && lexer.columns.head?.all (· < column)

/-- Begins a block collection here, unless its column is that of the one around. -/
def openBlock (token : Token) (lexer : Lexer) : Lexer :=
  let column := lexer.cursor.place.column
  if lexer.isDeeper column then { lexer.emit token with columns := column :: lexer.columns } else lexer

/-- Ends the block collections that lie deeper than a column. -/
def closeBlocks (column : Nat) (lexer : Lexer) : Lexer :=
  if lexer.inFlow then lexer
  else
    let n := (lexer.columns.takeWhile (column < ·)).length
    { lexer with
      tokens := List.replicate n .blockEnd ++ lexer.tokens
      count := lexer.count + n
      columns := lexer.columns.drop n }

/-! ### Keys -/

/-- Gives up that a key may have begun. -/
def dropKey? (lexer : Lexer) : Option Lexer :=
  if lexer.start.any (·.required) then none else some { lexer with start := none }

/-- Remembers that a key may begin here. -/
def noteKey? (lexer : Lexer) : Option Lexer := do
  let place := lexer.cursor.place
  if place.fresh then
    let lexer ← lexer.dropKey?
    let required := !lexer.inFlow && lexer.columns.head? = some place.column
    some { lexer with start := some ⟨place, lexer.count, required⟩ }
  else some lexer

/-- Makes a key of what has been read from its start on, in a block mapping that may begin with it. -/
def insertKey (start : KeyStart) (lexer : Lexer) : Lexer :=
  let column := start.place.column
  let deeper := lexer.isDeeper column
  let new := if deeper then [Token.key, .blockMap] else [.key]
  let since := lexer.count - start.index
  { lexer with
    tokens := lexer.tokens.take since ++ new ++ lexer.tokens.drop since
    count := lexer.count + new.length
    columns := if deeper then column :: lexer.columns else lexer.columns
    start := none }

/-! ### Tokens -/

/-- An opening bracket. The whole collection may turn out to be a key. -/
def open? (token : Token) (lexer : Lexer) : Option Lexer := do
  let lexer ← lexer.noteKey?
  some { lexer.mark token true with start := none, outer := lexer.start :: lexer.outer }

/-- A closing bracket. One that closes none is left to the reader of the tokens. -/
def close? (token : Token) (lexer : Lexer) : Option Lexer := do
  let lexer ← lexer.dropKey?
  some { lexer.mark token false with start := lexer.outer.head?.join, outer := lexer.outer.tail }

def comma? (lexer : Lexer) : Option Lexer := lexer.dropKey?.map (mark .comma true)

/-- The dash of an item. Another block collection may begin behind it. -/
def dash? (lexer : Lexer) : Option Lexer :=
  if lexer.inFlow || !lexer.cursor.place.fresh then none
  else (lexer.openBlock .blockSeq).dropKey?.map (mark .dash true)

/-- The mark of an explicit key. -/
def question? (lexer : Lexer) : Option Lexer :=
  if !lexer.inFlow && !lexer.cursor.place.fresh then none
  else (lexer.openBlock .blockMap).dropKey?.map (mark .key !lexer.inFlow)

/-- The mark of a value. What stands before is its key, if a key may have begun there. -/
def colon? (lexer : Lexer) : Option Lexer :=
  match lexer.start.filter (·.reaches lexer.cursor.place) with
  | some start => some ((lexer.insertKey start).mark .value false)
  | none => do
    let lexer ← lexer.dropKey?
    if !lexer.inFlow && !lexer.cursor.place.fresh then none
    else some ((lexer.openBlock .blockMap).mark .value !lexer.inFlow)

/-- A scalar. Its further lines are indented more than the block around. -/
def scalar? (lexer : Lexer) : Option Lexer := do
  let lexer ← lexer.noteKey?
  let margin := (lexer.columns.head?.map (· + 1)).getD 0
  let (s, behind) ← Scalar.read? lexer.inFlow margin lexer.cursor
  some { lexer.emit (.scalar s) with cursor := behind }

/-- The token that begins with a character that others follow. -/
def token? (c : Char) (cs : List Char) (lexer : Lexer) : Option Lexer :=
  let alone := endsToken cs
  match c with
  | '[' => lexer.open? .openSeq
  | '\x7b' => lexer.open? .openMap
  | ']' => lexer.close? .closeSeq
  | '\x7d' => lexer.close? .closeMap
  | ',' => lexer.comma?
  | '-' => if alone then lexer.dash? else lexer.scalar?
  | '?' => if alone || lexer.inFlow then lexer.question? else lexer.scalar?
  | ':' => if alone || lexer.inFlow then lexer.colon? else lexer.scalar?
  | _ => lexer.scalar?

/-- All tokens, once the text is at its end. -/
def finish? (lexer : Lexer) : Option (List Token) := do
  let lexer ← lexer.dropKey?
  some (lexer.tokens.reverse ++ lexer.columns.map fun _ => .blockEnd)

/-- The tokens of the rest of the text, each at a cost of one unit of fuel. -/
def run? : Nat → Lexer → Option (List Token)
  | 0, _ => none
  | fuel + 1, lexer =>
    let cursor := lexer.cursor.skip lexer.inFlow
    match cursor.rest with
    | [] => { lexer with cursor }.finish?
    | c :: cs => do
      let lexer ← (closeBlocks cursor.place.column { lexer with cursor }).token? c cs
      run? fuel lexer

end Lexer

/-- The tokens of a text. Each token takes at least a character. -/
def tokens? (cs : List Char) : Option (List Token) := (Lexer.ofText cs).run? (cs.length + 1)

end Pipewright.Yaml
