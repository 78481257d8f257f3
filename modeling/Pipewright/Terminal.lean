import Pipewright.Json.Printer
import Pipewright.Outline
import Pipewright.Run.Event
import Pipewright.Run.Report

/-!
# Text for terminals

How events, values, statistics, errors and outlines look on a terminal, with or without styles.
-/
namespace Pipewright

/-- A style of text, by the number that switches it on. -/
inductive Style where
  | bold
  | dim
  | red
  | green
  | yellow
  | cyan
deriving DecidableEq

def Style.number : Style → Nat
  | .bold => 1
  | .dim => 2
  | .red => 31
  | .green => 32
  | .yellow => 33
  | .cyan => 36

structure Terminal where
  /-- Whether text is shown in styles. -/
  styled : Bool

namespace Terminal

/-- The sequence of characters that switches a style on, or all styles off for zero. -/
def switch (number : Nat) : String := "\x1b[" ++ toString number ++ "m"

def paint (terminal : Terminal) (style : Style) (text : String) : String :=
  if terminal.styled then switch style.number ++ text ++ switch 0 else text

/-! ### Marks that lines begin with -/

def check : String := "✓ "

def cross : String := "✗ "

def note : String := "i "

def caution : String := "! "

def launch : String := "> "

/-! ### Lines -/

/-- Two blanks for each level. -/
def margin (level : Nat) : String := String.ofList (List.replicate (2 * level) ' ')

/-- The level of a step: how many lists lead to it beyond the first. -/
def level (path : String) : Nat := path.toList.count '[' - 1

/-- How much of the name of a run is shown. -/
def shortName (run : String) : String := String.ofList (run.toList.take 8)

/-- The line for an event of a run that took some seconds. A step that starts has none. -/
def event (terminal : Terminal) (run : String) (seconds : Double) : Event String → Option String
  | .pipelineStarted name totalSteps =>
    some (launch ++ " Starting pipeline " ++ terminal.paint .bold name ++ " (" ++ toString totalSteps ++
      " steps, " ++ terminal.paint .dim (shortName run) ++ ")")
  | .stepStarted .. => none
  | .stepCompleted path kind =>
    some (margin (level path) ++ check ++ " " ++ terminal.paint .green path ++ " " ++
      terminal.paint .dim kind.name)
  | .stepFailed path error =>
    some (margin (level path) ++ cross ++ " " ++ terminal.paint .red path ++ ": " ++ terminal.paint .dim error)
  | .errorRecovered path failedStep error =>
    some (margin (level path) ++ caution ++ " " ++ terminal.paint .yellow path ++ " caught error from " ++
      terminal.paint .cyan failedStep ++ ": " ++ terminal.paint .dim error)
  | .pipelineCompleted success stepsExecuted =>
    let status :=
      if success then terminal.paint .green "successfully" ++ " completed" else terminal.paint .red "failed"
    some (note ++ " Pipeline (" ++ terminal.paint .dim (shortName run) ++ ") " ++ status ++ " after " ++
      toString stepsExecuted ++ " steps in " ++ seconds.fixed 2 ++ "s")

/-- A value over several lines. Lines beyond a number of them are left out and counted. -/
def value (terminal : Terminal) (v : Value) (maxLines : Nat) : String :=
  let text := Json.pretty v
  let lines := text.splitOn "\n"
  if lines.length ≤ maxLines then text
  else
    "\n".intercalate (lines.take maxLines) ++ "\n" ++ terminal.paint .dim "[truncated]" ++ "... (" ++
      toString (lines.length - maxLines) ++ " more lines)"

/-- The statistics of a run that took some seconds. -/
def stats (terminal : Terminal) (s : Stats) (seconds : Double) : String :=
  let byType := s.stepsByType.map fun (type, count) => toString count ++ " " ++ type
  terminal.paint .cyan (toString s.stepsExecuted) ++ " steps (" ++ ", ".intercalate byType ++ ") in " ++
    seconds.fixed 3 ++ "s, peak context ~" ++ toString s.memoryPeak ++ " bytes"

def error (terminal : Terminal) (info : ErrorInfo) : String :=
  let place := match info.step with
    | some step => " at " ++ terminal.paint .cyan step
    | none => ""
  cross ++ " [" ++ terminal.paint .red info.kind ++ "/" ++ terminal.paint .dim info.code ++ "]" ++ place ++
    ": " ++ info.message

def outlineEntry (terminal : Terminal) (entry : OutlineEntry String) : String :=
  let output := match entry.output with
    | some name => " -> $" ++ terminal.paint .green name
    | none => ""
  margin entry.depth ++ terminal.paint .dim entry.path ++ " " ++ terminal.paint .cyan entry.kind.name ++ " " ++
    entry.summary ++ output

end Terminal

end Pipewright
