import Pipewright.CommandLine.Arguments
import Pipewright.CommandLine.Outcome

/-!
# The program

Reads the files that a command names, carries it out and prints what it came to.
-/
namespace Pipewright.Main

/-- The text of a file, if it can be read. -/
def readFile? (file : String) : IO (Option String) := do
  try return some (← IO.FS.readFile file)
  catch _ => return none

def readFiles : List String → IO (List (String × String))
  | [] => return []
  | file :: rest => do
    let texts ← readFiles rest
    match ← readFile? file with
    | some text => return (file, text) :: texts
    | none => return texts

/-- Tells the events of a run. -/
def tellEvents (terminal : Terminal) (seconds : Double) (outcome : Outcome) : IO Unit := do
  match outcome with
  | .ran report =>
    for event in report.events do
      match terminal.event "run" seconds (event.map Path.text) with
      | some line => IO.eprintln line
      | none => pure ()
  | _ => pure ()

def perform (invocation : Invocation) : IO UInt32 := do
  let terminal : Terminal := ⟨← (← IO.getStdout).isTty⟩
  let texts ← readFiles invocation.command.files
  let start ← IO.monoMsNow
  match invocation.command.perform (fun file => texts.lookup file) with
  | .error e =>
    IO.eprintln ("Error: " ++ e.message)
    return 1
  | .ok outcome =>
    let code : UInt32 := if outcome.succeeded then 0 else 1
    let seconds := (Double.ofInt ((← IO.monoMsNow) - start)).divNat 1000
    if invocation.verbose then tellEvents terminal seconds outcome
    for line in outcome.output invocation.command.json terminal seconds do
      IO.println line
    return code

end Pipewright.Main

def main (arguments : List String) : IO UInt32 := do
  match Pipewright.Invocation.read arguments with
  | .ok invocation => Pipewright.Main.perform invocation
  | .error stop =>
    if stop.isFault then
      IO.eprintln stop.text
      return 2
    else
      IO.println stop.text
      return 0
