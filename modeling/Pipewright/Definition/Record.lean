import Pipewright.Datum
import Pipewright.Limits
import Pipewright.RunError

/-!
# Records in values

A record is written as an object, or as the list of its fields in order, where fields at the end may be left
out. Fields that no record asks for are ignored. In a datum a field may also be named by its number.
-/
namespace Pipewright

/-- Why a value cannot be read as what it should be. -/
inductive DecodeError where
  /-- Two spellings of one field are both there. -/
  | duplicateField (name : String)
  | missingField (name : String)
  | tooManyFields
  | mismatch (wanted : String)
deriving DecidableEq

namespace DecodeError

def message : DecodeError → String
  | .duplicateField name => "duplicate field `" ++ name ++ "`"
  | .missingField name => "missing field `" ++ name ++ "`"
  | .tooManyFields => "too many fields"
  | .mismatch wanted => "expected " ++ wanted

/-- The error of a run whose definition cannot be decoded. -/
def toRunError (e : DecodeError) : RunError := .undecodable e.message

end DecodeError

namespace Value

/-- The fields of a record whose fields have these names, in order. -/
def record (names : List String) : Value → Except DecodeError (Fields Value)
  | .obj fields => .ok fields
  | .arr items => if items.length ≤ names.length then .ok (names.zip items) else .error .tooManyFields
  | _ => .error (.mismatch "a record")

def text : Value → Except DecodeError String
  | .str s => .ok s
  | _ => .error (.mismatch "a string")

def natural : Value → Except DecodeError Nat
  | .num (.int (.ofNat n)) => .ok n
  | _ => .error (.mismatch "a non-negative integer")

end Value

namespace Datum

/-- The field that a key stands for, if it stands for any of these. -/
def fieldName (names : List String) : DatumKey → Except DecodeError (Option String)
  | .name s => .ok (if names.contains s then some s else none)
  | .number n => .ok names[n]?
  | .other => .error (.mismatch "the name of a field")

/-- Those of the entries of an object that are fields with these names. Each may be given once. -/
def fieldsAmong (names : List String) : List (DatumKey × Datum) → Except DecodeError (List (String × Datum))
  | [] => .ok []
  | (key, datum) :: rest => do
    let fields ← fieldsAmong names rest
    match ← fieldName names key with
    | none => return fields
    | some name =>
      if Fields.contains name fields then throw (.duplicateField name) else return (name, datum) :: fields

/-- The fields of a record that is written as an object. -/
def objectRecord (names : List String) : Datum → Except DecodeError (List (String × Datum))
  | .obj entries => fieldsAmong names entries
  | _ => .error (.mismatch "an object")

/-- The fields of a record whose fields have these names, in order. -/
def record (names : List String) : Datum → Except DecodeError (List (String × Datum))
  | .arr items => if items.length ≤ names.length then .ok (names.zip items) else .error .tooManyFields
  | datum => objectRecord names datum

def value (datum : Datum) : Except DecodeError Value :=
  datum.value?.elim (.error (.mismatch "a value")) .ok

def text : Datum → Except DecodeError String
  | .leaf v => v.text
  | _ => .error (.mismatch "a string")

def truth : Datum → Except DecodeError Bool
  | .leaf (.bool b) => .ok b
  | _ => .error (.mismatch "a boolean")

end Datum

/-- A field of a record, read in some way. -/
def Fields.required {α β : Type} (read : α → Except DecodeError β) (record : Fields α) (name : String) :
    Except DecodeError β :=
  match Fields.get? name record with
  | some v => read v
  | none => .error (.missingField name)

/-- A field of a record, read in some way, or what stands for it if it is not there. -/
def Fields.given {α β : Type} (read : α → Except DecodeError β) (record : Fields α) (name : String)
    (standard : β) : Except DecodeError β :=
  match Fields.get? name record with
  | some v => read v
  | none => .ok standard

/-- Limits, of which those that are not given are as in the standard ones. -/
def Limits.decode (v : Value) : Except DecodeError Limits := do
  let record ← v.record ["max_steps", "max_depth", "timeout_secs"]
  let maxSteps ← Fields.given Value.natural record "max_steps" Limits.standard.maxSteps
  let maxDepth ← Fields.given Value.natural record "max_depth" Limits.standard.maxDepth
  let timeoutSecs ← Fields.given Value.natural record "timeout_secs" Limits.standard.timeoutSecs
  return ⟨maxSteps, maxDepth, timeoutSecs⟩

/-- The details of an error; the step may be null or left out. -/
def ErrorInfo.decode (v : Value) : Except DecodeError ErrorInfo := do
  let record ← v.record ["message", "type", "code", "step"]
  let message ← Fields.required Value.text record "message"
  let kind ← Fields.required Value.text record "type"
  let code ← Fields.required Value.text record "code"
  let step ← Fields.given (fun v => if v.isNull then .ok none else v.text.map some) record "step" none
  return ⟨message, kind, code, step⟩

end Pipewright
