import Pipewright.Ability
import Pipewright.Definition.Record
import Pipewright.Yaml.Reader

/-!
# Fixtures

Abilities with a fixed behaviour, for running pipelines without a world behind them.
-/
namespace Pipewright

/-- What an ability does whenever it is called. -/
inductive Fixture where
  | fail (code message : String)
  /-- Answers with the input, or with null. -/
  | echo (on : Bool)
  | result (v : Value)

namespace Fixture

/-- The code of a failure that names none. -/
def standardCode : String := "fixture_error"

def run (input : Value) : Fixture → Except AbilityError Value
  | .fail code message => .error (.failed code message)
  | .echo on => .ok (if on then input else .null)
  | .result v => .ok v

/-- The failure of a fixture. -/
def decodeFailure (datum : Datum) : Except DecodeError Fixture := do
  let record ← datum.record ["code", "message"]
  let code ← Fields.given Datum.text record "code" standardCode
  let message ← Fields.required Datum.text record "message"
  return .fail code message

/-- The kinds of fixtures by the one field that each has, in the order in which they are tried. -/
def kinds : List (String × (Datum → Except DecodeError Fixture)) :=
  [("error", decodeFailure), ("echo", fun datum => datum.truth.map echo),
   ("result", fun datum => datum.value.map result)]

/-- The first kind of fixture that an object can be read as. -/
def decode (datum : Datum) : Except DecodeError Fixture :=
  let found := kinds.findSome? fun (name, read) =>
    ((datum.objectRecord [name]).bind fun record => Fields.required read record name).toOption
  found.elim (.error (.mismatch "a fixture")) .ok

end Fixture

/-- Fixtures by the name of the ability that they stand for. -/
abbrev Fixtures := Fields Fixture

namespace Fixtures

def decodeEntries : List (String × Value) → Except DecodeError Fixtures
  | [] => .ok []
  | (name, v) :: rest => do
    let fixture ← Fixture.decode (.ofValue v)
    let fixtures ← decodeEntries rest
    return (name, fixture) :: fixtures

/-- Fixtures as the entries of an object. -/
def decode : Value → Except DecodeError Fixtures
  | .obj entries => decodeEntries entries
  | _ => .error (.mismatch "an object of fixtures")

/-- The fixtures of the entries of a mapping, whose keys are taken by their text. -/
def ofEntries? (entries : List (Yaml.Node × Yaml.Node)) : Option Fixtures := do
  let fixtures ← entries.mapM fun (key, node) => do
    let name ← key.text?
    let datum ← node.datum?
    let fixture ← (Fixture.decode datum).toOption
    some (name, fixture)
  some (Fields.ofList fixtures)

/-- The fixtures of a YAML text; an empty document has none. -/
def read? (text : String) : Option Fixtures := do
  match ← Yaml.read? text with
  | none => some []
  | some (.map entries) => ofEntries? entries
  | some _ => none

def abilities (fixtures : Fixtures) : Abilities :=
  ⟨fun name => (Fields.get? name fixtures).map fun fixture => fun _ input => fixture.run input⟩

end Fixtures

end Pipewright
