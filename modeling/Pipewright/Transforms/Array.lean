import Pipewright.Transforms.Input
import Pipewright.Condition

/-!
# Transforms of arrays

Selecting, projecting, ordering, cutting and grouping the items of an array. A `field` is dotted, and an
item that lacks it has null there.
-/
namespace Pipewright.Transforms

/-- What an item is judged by: its field, or itself. -/
def keyOf (field : Option String) (item : Value) : Value :=
  match field with
  | some field => item.fieldOrNull field
  | none => item

/-- The items that pass a test, in order; the first fault of the test ends it. -/
def keepWhere (test : Value → Except Fault Bool) : List Value → Except Fault (List Value)
  | [] => .ok []
  | item :: rest => do
    let keep ← test item
    let kept ← keepWhere test rest
    return if keep then item :: kept else kept

/-- Whether an operator, or without one the truth of the value, lets a value pass. -/
def passes (operator : Option String) (against subject : Value) : Except Fault Bool :=
  match operator with
  | none => .ok subject.isTruthy
  | some name =>
    match Operator.parse? name with
    | some op => .ok (op.holds subject against)
    | none => .error (.operator name)

/-- Keeps the items whose key stands in the relation `operator` to `value`. -/
def filter (params : Params) (items : List Value) : Except Fault (List Value) :=
  let field := textParam params "field"
  let against := (Fields.get? "value" params).getD .null
  keepWhere (fun item => passes (textParam params "operator") against (keyOf field item)) items

/-- The fields of an item as an object. -/
def project (names : List String) (item : Value) : Value :=
  .obj (Fields.ofList (names.map fun name => (name, item.fieldOrNull name)))

/-- One field of every item, or an object of several. -/
def map (params : Params) (items : List Value) : Except Fault (List Value) :=
  match Fields.get? "fields" params with
  | some (.arr names) => .ok (items.map (project (names.filterMap Value.str?)))
  | _ => do
    let field ← requiredText params "field"
    return items.map (·.fieldOrNull field)

/-- One field of the items that have it. -/
def pluck (params : Params) (items : List Value) : Except Fault (List Value) := do
  let field ← requiredText params "field"
  return items.filterMap (·.field? field)

/-- The items whose key differs from the keys seen and from those of the items before. -/
def uniqueBy (key : Value → Value) (seen : List Value) : List Value → List Value
  | [] => []
  | item :: rest =>
    if seen.any (·.same (key item)) then uniqueBy key seen rest
    else item :: uniqueBy key (seen ++ [key item]) rest

/-- Keeps the first item of each key. -/
def unique (params : Params) (items : List Value) : List Value :=
  uniqueBy (keyOf (textParam params "field")) [] items

/-- Whether a sort goes down; the order is named in any case. -/
def descending (params : Params) : Except Fault Bool :=
  match (textParam params "order").or (textParam params "direction") with
  | none => .ok false
  | some order =>
    let name := order.toLower
    if name = "asc" then .ok false
    else if name = "desc" then .ok true
    else .error (.sortOrder order)

/-- Sorts by key; items of equal keys keep their order, whichever way the sort goes. -/
def sortBy (key : Value → Value) (down : Bool) (items : List Value) : List Value :=
  if down then items.mergeSort fun a b => (Value.compare (key b) (key a)).isLE
  else items.mergeSort fun a b => (Value.compare (key a) (key b)).isLE

def sort (params : Params) (items : List Value) : Except Fault (List Value) := do
  let down ← descending params
  return sortBy (keyOf (textParam params "field")) down items

/-- Where a slice of `length` items begins and ends. A negative offset counts from the end, and so does the
end that a negative length gives. -/
def sliceBounds (count offset : Int) (length : Option Int) : Int × Int :=
  let start := if offset < 0 then max (count + offset) 0 else min offset count
  let stop := match length with
    | none => count
    | some length => if length < 0 then max (count + length) start else min (start + length) count
  (start, stop)

def slice (params : Params) (items : List Value) : Except Fault (List Value) := do
  let offset ← intParam params "offset"
  let length ← intParam params "length"
  let (start, stop) := sliceBounds items.length (offset.getD 0) length
  return (items.take stop.toNat).drop start.toNat

/-- Batches of `more + 1` items, the last of which may be shorter. -/
def batches (more : Nat) : List Value → List (List Value)
  | [] => []
  | item :: rest => (item :: rest.take more) :: batches more (rest.drop more)
termination_by items => items.length
decreasing_by simp only [List.length_drop, List.length_cons]; omega

def chunk (params : Params) (items : List Value) : Except Fault (List Value) := do
  let size := (← intParam params "size").getD 10
  if size < 1 then .error .batchSize
  else return (batches (size.toNat - 1) items).map .arr

mutual

/-- What stands in place of an item: the items of an inner array, or the item itself. -/
def flattenItem (depth : Option Nat) : Value → List Value
  | .arr inner => if depth = some 0 then [.arr inner] else flattenTo (depth.map (· - 1)) inner
  | item => [item]

/-- Puts the items of inner arrays in their place, down to a depth or all the way. -/
def flattenTo (depth : Option Nat) : List Value → List Value
  | [] => []
  | item :: rest => flattenItem depth item ++ flattenTo depth rest

end

def flatten (params : Params) (items : List Value) : Except Fault (List Value) := do
  match ← intParam params "depth" with
  | none => return flattenTo none items
  | some depth => if depth < 0 then .error .negativeDepth else return flattenTo (some depth.toNat) items

/-- Appends to an array, or writes the entries of one object over those of another. -/
def merge (params : Params) (data : Value) : Except Fault Value :=
  match Fields.get? "with" params with
  | none => .error (.missing "with")
  | some extra =>
    match data, extra with
    | .arr items, .arr more => .ok (.arr (items ++ more))
    | .obj fields, .obj more => .ok (.obj (Fields.extend fields more))
    | data, extra => .error (.mixedMerge data.kind extra.kind)

/-- The keys of an object, or the indices of an array. -/
def keys : Value → Except Fault Value
  | .obj fields => .ok (.arr (fields.map fun entry => .str entry.1))
  | .arr items => .ok (.arr ((List.range items.length).map Value.nat))
  | v => .error (.notCollection v.kind)

/-- The values of an object, or the array itself. -/
def values : Value → Except Fault Value
  | .obj fields => .ok (.arr (fields.map Prod.snd))
  | .arr items => .ok (.arr items)
  | v => .error (.notCollection v.kind)

/-- Puts an item behind those of its group. -/
def addToGroup (key : Value → String) (groups : Fields (List Value)) (item : Value) : Fields (List Value) :=
  let name := key item
  Fields.insert name ((Fields.get? name groups).getD [] ++ [item]) groups

/-- The items by the text of their key, in order inside a group. -/
def groupsBy (key : Value → String) (items : List Value) : Fields (List Value) :=
  items.foldl (addToGroup key) []

def groupBy (params : Params) (items : List Value) : Except Fault Value := do
  let field ← requiredText params "field"
  let groups := groupsBy (fun item => (item.fieldOrNull field).display) items
  return .obj (groups.map fun group => (group.1, .arr group.2))

end Pipewright.Transforms
