import Pipewright.Value.Fold

/-!
# Data

A datum is like a value, but the keys of its objects need not be strings. It stands between a text whose keys
may be anything and what is made of it: values, whose keys are strings, and records, whose fields may be
named by number.
-/
namespace Pipewright

/-- The key of an entry. -/
inductive DatumKey where
  | name (s : String)
  | number (n : Nat)
  /-- Neither a string nor a natural number. -/
  | other
deriving DecidableEq

inductive Datum where
  /-- Null, a boolean, a number or a string. -/
  | leaf (v : Value)
  | arr (items : List Datum)
  | obj (entries : List (DatumKey × Datum))

namespace Datum

/-- A value as a datum. -/
def ofValue : Value → Datum :=
  Value.fold leaf arr fun entries => obj (entries.map fun (key, datum) => (.name key, datum))

mutual

/-- The value of a datum, all of whose keys have to be strings. Of two entries with one key the later
counts. -/
def value? : Datum → Option Value
  | .leaf v => some v
  | .arr items => (itemValues? items).map Value.arr
  | .obj entries => (entryValues? entries).map fun entries => .obj (Fields.ofList entries)

def itemValues? : List Datum → Option (List Value)
  | [] => some []
  | datum :: rest => do
    let v ← value? datum
    let values ← itemValues? rest
    some (v :: values)

def entryValues? : List (DatumKey × Datum) → Option (List (String × Value))
  | [] => some []
  | (.name key, datum) :: rest => do
    let v ← value? datum
    let values ← entryValues? rest
    some ((key, v) :: values)
  | _ :: _ => none

end

end Datum

end Pipewright
