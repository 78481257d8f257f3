/-!
# Places in a YAML text

The structure of a YAML text hangs on where its parts stand, so a reader carries its place along: the line,
the column, and whether a key may begin there.
-/
namespace Pipewright.Yaml

/-- The characters that end a line; a text is read with one line feed for each of its other line ends. -/
def isBreak (c : Char) : Bool := c = '\n' || c.toNat = 0x2028 || c.toNat = 0x2029

/-- The white space between tokens and inside scalars. -/
def isGap (c : Char) : Bool := c = ' ' || c = '\t' || isBreak c

/-- The byte order mark, which may stand before the first token of a line. -/
def isOrderMark (c : Char) : Bool := c.toNat = 0xFEFF

/-- Whether a token ends here: at white space or at the end of the text. -/
def endsToken (cs : List Char) : Bool := cs.head?.all isGap

structure Place where
  /-- How many bytes stand before, in UTF-8. -/
  index : Nat
  line : Nat
  column : Nat
  /-- Whether a key may begin here, and outside of brackets a block collection. -/
  fresh : Bool

namespace Place

def start : Place := ⟨0, 0, 0, true⟩

/-- The place behind a character. A key may begin on a new line, and not behind other text. -/
def after (place : Place) (c : Char) : Place :=
  let index := place.index + c.utf8Size
  if isBreak c then ⟨index, place.line + 1, 0, true⟩
  else ⟨index, place.line, place.column + 1, place.fresh && (c = ' ' || c = '\t')⟩

end Place

/-- A place and the text from there on. -/
structure Cursor where
  place : Place
  rest : List Char

namespace Cursor

/-- Passes over one character. -/
def next (cursor : Cursor) : Cursor :=
  match cursor.rest with
  | [] => cursor
  | c :: cs => ⟨cursor.place.after c, cs⟩

/-- Passes over white space and comments. Outside of brackets a tab is no white space where a key may begin.
A byte order mark takes up a column. -/
def skipFrom (flow comment : Bool) : Place → List Char → Cursor
  | place, [] => ⟨place, []⟩
  | place, c :: cs =>
    if isBreak c then skipFrom flow false (place.after c) cs
    else if comment || c = '#' then skipFrom flow true (place.after c) cs
    else if place.column = 0 && isOrderMark c then
      skipFrom flow false { place.after c with fresh := place.fresh } cs
    else if c = ' ' || (c = '\t' && (flow || !place.fresh)) then skipFrom flow false (place.after c) cs
    else ⟨place, c :: cs⟩

/-- The cursor with the word whether a key may begin at its place. -/
def setFresh (fresh : Bool) (cursor : Cursor) : Cursor :=
  { cursor with place := { cursor.place with fresh } }

/-- Passes over white space and comments to the next token. Within brackets a new line makes no difference to
keys. -/
def skip (flow : Bool) (cursor : Cursor) : Cursor :=
  let behind := skipFrom flow false cursor.place cursor.rest
  if flow then behind.setFresh cursor.place.fresh else behind

end Cursor

end Pipewright.Yaml
