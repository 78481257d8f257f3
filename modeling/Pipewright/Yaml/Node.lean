import Pipewright.Yaml.Scalar

/-!
# YAML nodes

A document is a tree of scalars, sequences and mappings. A mapping keeps its entries as they are written, and
any node may be a key.
-/
namespace Pipewright.Yaml

inductive Node where
  | scalar (s : Scalar)
  | seq (items : List Node)
  | map (entries : List (Node × Node))

namespace Node

/-- A key or a value that is left out. -/
def missing : Node := .scalar Scalar.missing

/-- The text of a scalar, whatever it stands for. -/
def text? : Node → Option String
  | .scalar s => some s.text
  | _ => none

mutual

/-- How many collections stand one inside the other. -/
def depth : Node → Nat
  | .scalar _ => 0
  | .seq items => depthItems items + 1
  | .map entries => depthEntries entries + 1

def depthItems : List Node → Nat
  | [] => 0
  | node :: rest => max (depth node) (depthItems rest)

def depthEntries : List (Node × Node) → Nat
  | [] => 0
  | (key, node) :: rest => max (max (depth key) (depth node)) (depthEntries rest)

end

mutual

/-- The value of a node. Keys are taken by their text, and of two entries with one key the later counts. -/
def value? : Node → Option Value
  | .scalar s => s.value?
  | .seq items => (itemValues? items).map Value.arr
  | .map entries => (entryValues? entries).map fun entries => .obj (Fields.ofList entries)

def itemValues? : List Node → Option (List Value)
  | [] => some []
  | node :: rest => do
    let v ← value? node
    let values ← itemValues? rest
    some (v :: values)

def entryValues? : List (Node × Node) → Option (List (String × Value))
  | [] => some []
  | (key, node) :: rest => do
    let name ← key.text?
    let v ← value? node
    let values ← entryValues? rest
    some ((name, v) :: values)

end

/-- What a node is as a key, by what it stands for. -/
def key : Node → DatumKey
  | .scalar s => s.key
  | _ => .other

mutual

/-- The datum of a node. Keys are taken by what they stand for. -/
def datum? : Node → Option Datum
  | .scalar s => s.value?.map Datum.leaf
  | .seq items => (itemData? items).map Datum.arr
  | .map entries => (entryData? entries).map Datum.obj

def itemData? : List Node → Option (List Datum)
  | [] => some []
  | node :: rest => do
    let datum ← datum? node
    let data ← itemData? rest
    some (datum :: data)

def entryData? : List (Node × Node) → Option (List (DatumKey × Datum))
  | [] => some []
  | (key, node) :: rest => do
    let _ ← datum? key
    let datum ← datum? node
    let data ← entryData? rest
    some ((key.key, datum) :: data)

end

end Node

end Pipewright.Yaml
