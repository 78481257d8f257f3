import Pipewright.Yaml.Node
import Pipewright.Yaml.Token

/-!
# Reading YAML

`read?` accepts one document made of block mappings and sequences, flow collections, and plain and quoted
scalars. Anchors, tags, block scalars, directives and document markers are refused. JSON texts are documents
that consist of one flow collection.
-/
namespace Pipewright.Yaml

mutual

/-- A scalar or a flow collection. Each call uses up a unit of fuel. -/
def leaf? : Nat → List Token → Option (Node × List Token)
  | 0, _ => none
  | fuel + 1, tokens =>
    match tokens with
    | .scalar s :: rest => some (.scalar s, rest)
    | .openSeq :: rest => (flowItems? fuel rest).map fun (items, rest) => (.seq items, rest)
    | .openMap :: rest => (flowEntries? fuel rest).map fun (entries, rest) => (.map entries, rest)
    | _ => none

/-- The value of a key in a flow collection, which may go without. -/
def flowValue? : Nat → List Token → Option (Node × List Token)
  | 0, _ => none
  | fuel + 1, tokens =>
    match tokens with
    | .value :: rest =>
      match rest with
      | .comma :: _ | .closeSeq :: _ | .closeMap :: _ => some (.missing, rest)
      | _ => leaf? fuel rest
    | _ => some (.missing, tokens)

/-- An item of a flow sequence. A pair of a key and a value is a mapping of its own. Where an explicit key is
missing, the colon, comma or bracket that stands there is passed over. -/
def flowItem? : Nat → List Token → Option (Node × List Token)
  | 0, _ => none
  | fuel + 1, tokens =>
    match tokens with
    | .key :: rest => do
      let (key, rest) ← match rest with
        | .value :: rest | .comma :: rest | .closeSeq :: rest => some (.missing, rest)
        | _ => leaf? fuel rest
      let (v, rest) ← flowValue? fuel rest
      some (.map [(key, v)], rest)
    | _ => leaf? fuel tokens

/-- The items of a flow sequence from behind its bracket or a comma on. -/
def flowItems? : Nat → List Token → Option (List Node × List Token)
  | 0, _ => none
  | fuel + 1, tokens =>
    match tokens with
    | .closeSeq :: rest => some ([], rest)
    | _ => do
      let (item, rest) ← flowItem? fuel tokens
      match rest with
      | .comma :: rest => do
        let (items, rest) ← flowItems? fuel rest
        some (item :: items, rest)
      | .closeSeq :: rest => some ([item], rest)
      | _ => none

/-- An entry of a flow mapping. A key may stand alone. -/
def flowEntry? : Nat → List Token → Option ((Node × Node) × List Token)
  | 0, _ => none
  | fuel + 1, tokens =>
    match tokens with
    | .key :: rest => do
      let (key, rest) ← match rest with
        | .value :: _ | .comma :: _ | .closeMap :: _ => some (.missing, rest)
        | _ => leaf? fuel rest
      let (v, rest) ← flowValue? fuel rest
      some ((key, v), rest)
    | _ => (leaf? fuel tokens).map fun (key, rest) => ((key, .missing), rest)

/-- The entries of a flow mapping from behind its bracket or a comma on. -/
def flowEntries? : Nat → List Token → Option (List (Node × Node) × List Token)
  | 0, _ => none
  | fuel + 1, tokens =>
    match tokens with
    | .closeMap :: rest => some ([], rest)
    | _ => do
      let (entry, rest) ← flowEntry? fuel tokens
      match rest with
      | .comma :: rest => do
        let (entries, rest) ← flowEntries? fuel rest
        some (entry :: entries, rest)
      | .closeMap :: rest => some ([entry], rest)
      | _ => none

end

mutual

/-- A node outside of brackets: a block collection or a leaf. -/
def blockNode? : Nat → List Token → Option (Node × List Token)
  | 0, _ => none
  | fuel + 1, tokens =>
    match tokens with
    | .blockSeq :: rest => (blockItems? fuel rest).map fun (items, rest) => (.seq items, rest)
    | .blockMap :: rest => (blockEntries? fuel rest).map fun (entries, rest) => (.map entries, rest)
    | _ => leaf? fuel tokens

/-- The items of a block sequence up to its end. -/
def blockItems? : Nat → List Token → Option (List Node × List Token)
  | 0, _ => none
  | fuel + 1, tokens =>
    match tokens with
    | .dash :: rest => do
      let (item, rest) ← match rest with
        | .dash :: _ | .blockEnd :: _ => some (.missing, rest)
        | _ => blockNode? fuel rest
      let (items, rest) ← blockItems? fuel rest
      some (item :: items, rest)
    | .blockEnd :: rest => some ([], rest)
    | _ => none

/-- The items of a sequence whose dashes stand in the column of the keys around it, up to the next of
these. -/
def levelItems? : Nat → List Token → Option (List Node × List Token)
  | 0, _ => none
  | fuel + 1, tokens =>
    match tokens with
    | .dash :: rest => do
      let (item, rest) ← match rest with
        | .dash :: _ | .key :: _ | .value :: _ | .blockEnd :: _ => some (.missing, rest)
        | _ => blockNode? fuel rest
      let (items, rest) ← levelItems? fuel rest
      some (item :: items, rest)
    | _ => some ([], tokens)

/-- A key or a value of a block mapping, which may be left out. -/
def blockPart? : Nat → List Token → Option (Node × List Token)
  | 0, _ => none
  | fuel + 1, tokens =>
    match tokens with
    | .key :: _ | .value :: _ | .blockEnd :: _ => some (.missing, tokens)
    | .dash :: _ => (levelItems? fuel tokens).map fun (items, rest) => (.seq items, rest)
    | _ => blockNode? fuel tokens

/-- The entries of a block mapping up to its end. -/
def blockEntries? : Nat → List Token → Option (List (Node × Node) × List Token)
  | 0, _ => none
  | fuel + 1, tokens =>
    match tokens with
    | .key :: rest => do
      let (key, rest) ← blockPart? fuel rest
      let (v, rest) ← match rest with
        | .value :: rest => blockPart? fuel rest
        | _ => some (.missing, rest)
      let (entries, rest) ← blockEntries? fuel rest
      some ((key, v) :: entries, rest)
    | .blockEnd :: rest => some ([], rest)
    | _ => none

end

/-- The characters that may stand in a text. -/
def isPrintable (c : Char) : Bool :=
  c = '\t' || c = '\n' || c = '\r' || c.toNat = 0x85 || (0x20 ≤ c.toNat && c.toNat ≤ 0x7E) ||
    (0xA0 ≤ c.toNat && c.toNat ≤ 0xFFFD) || 0x10000 ≤ c.toNat

/-- One line feed for each line end that is not a separator of its own. -/
def unifyLineEnds : List Char → List Char
  | '\r' :: '\n' :: cs => '\n' :: unifyLineEnds cs
  | c :: cs => (if c = '\r' || c.toNat = 0x85 then '\n' else c) :: unifyLineEnds cs
  | [] => []

/-- Whether a line is a marker between documents, or begins with one. -/
def isMarker (line : List Char) : Bool :=
  (['-', '-', '-'].isPrefixOf line || ['.', '.', '.'].isPrefixOf line) && endsToken (line.drop 3)

def hasMarker (cs : List Char) : Bool := (cs.splitOnP isBreak).any isMarker

/-- How deep collections may stand one inside the other. -/
def deepest : Nat := 128

/-- The document of a text, if it is one; an empty document has no node. A token takes at most four calls. -/
def read? (text : String) : Option (Option Node) := do
  let cs := unifyLineEnds text.toList
  if !cs.all isPrintable || hasMarker cs then none
  else
    match ← tokens? cs with
    | [] => some none
    | tokens => do
      let (node, rest) ← blockNode? (4 * tokens.length + 4) tokens
      if rest.isEmpty && node.depth ≤ deepest then some (some node) else none

/-- The value of a document; an empty one is null. -/
def value? (text : String) : Option Value := do
  match ← read? text with
  | some node => node.value?
  | none => some .null

end Pipewright.Yaml
