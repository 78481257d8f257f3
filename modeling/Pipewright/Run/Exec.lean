import Pipewright.Ability
import Pipewright.Run.Event
import Pipewright.Stats

/-!
# Executions

An execution starts in a scope with a meter and ends in an outcome, a scope, a meter and the log of what it
did. Scope and meter are there after a failure too: what was written stays written and what was counted
stays counted, unless a combinator says otherwise.
-/
namespace Pipewright

/-- What a clock shows each time that it is read, in whole seconds since the run began. -/
abbrev Clock := Nat → Nat

namespace Clock

/-- The clock of a run that takes no time that counts. -/
def still : Clock := fun _ => 0

/-- The readings after the first. -/
def later (clock : Clock) : Clock := fun i => clock (i + 1)

end Clock

/-- What a run has used up so far, shared by all scopes of it. -/
structure Meter where
  stats : Stats
  /-- The calls of abilities, oldest first. -/
  calls : List Call
  /-- The readings of the clock that are still to come. -/
  clock : Clock

namespace Meter

/-- The meter of a run that has not begun. -/
def fresh (clock : Clock) : Meter := ⟨Stats.none, [], clock⟩

/-- Counts a step. -/
def record (meter : Meter) (kind : StepKind) : Meter := { meter with stats := meter.stats.record kind.name }

/-- Notes the size of a scope. -/
def observe (meter : Meter) (bytes : Nat) : Meter := { meter with stats := meter.stats.observe bytes }

/-- Remembers a call. -/
def remember (meter : Meter) (call : Call) : Meter := { meter with calls := meter.calls ++ [call] }

/-- Leaves a reading of the clock behind. -/
def tick (meter : Meter) : Meter := { meter with clock := meter.clock.later }

end Meter

/-- An error and the path where it arose. -/
structure Failure where
  path : Path
  error : RunError

/-- Something that a run does to the world around it, or a limit that it runs into. -/
inductive Act where
  | tell (event : Event Path)
  | call (call : Call)
  /-- A limit refuses a step or a list of steps. -/
  | refuse (failure : Failure)

/-- The event that an act tells. -/
def Act.event? : Act → Option (Event Path)
  | .tell event => some event
  | _ => none

/-- An act of a run, and what the meter shows at it. -/
structure Moment where
  act : Act
  meter : Meter

/-- How an execution ended, and what it did, oldest first. -/
structure Ran (α : Type) where
  outcome : Except Failure α
  scope : Scope
  meter : Meter
  log : List Moment

/-- A computation of a run. -/
def Exec (α : Type) := Scope → Meter → Ran α

namespace Exec

variable {α β : Type}

/-- Goes on with the value of an execution; a failure ends it. -/
def andThen (x : Exec α) (next : α → Exec β) : Exec β := fun scope meter =>
  let first := x scope meter
  match first.outcome with
  | .error failure => ⟨.error failure, first.scope, first.meter, first.log⟩
  | .ok a =>
    let second := next a first.scope first.meter
    { second with log := first.log ++ second.log }

instance : Monad Exec where
  pure a := fun scope meter => ⟨.ok a, scope, meter, []⟩
  bind := andThen

/-- Ends in an outcome without doing anything. -/
def ofOutcome (outcome : Except Failure α) : Exec α := fun scope meter => ⟨outcome, scope, meter, []⟩

def raise (failure : Failure) : Exec α := ofOutcome (.error failure)

/-- A result of a pure computation at a path. -/
def lift (path : Path) (result : Except RunError α) : Exec α := ofOutcome (result.mapError (Failure.mk path))

def scope : Exec Scope := fun scope meter => ⟨.ok scope, scope, meter, []⟩

def meter : Exec Meter := fun scope meter => ⟨.ok meter, scope, meter, []⟩

/-- Changes the scope. -/
def write (f : Scope → Scope) : Exec Unit := fun scope meter => ⟨.ok (), f scope, meter, []⟩

/-- Changes the meter. -/
def count (f : Meter → Meter) : Exec Unit := fun scope meter => ⟨.ok (), scope, f meter, []⟩

/-- Reads the clock. -/
def seconds : Exec Nat := fun scope meter => ⟨.ok (meter.clock 0), scope, meter.tick, []⟩

/-- Puts an act into the log. -/
def note (act : Act) : Exec Unit := fun scope meter => ⟨.ok (), scope, meter, [⟨act, meter⟩]⟩

def emit (event : Event Path) : Exec Unit := note (.tell event)

/-- Fails because of a limit. -/
def refuse (failure : Failure) : Exec α := do
  note (.refuse failure)
  raise failure

/-- Runs to the end and hands over the outcome, be it a failure. -/
def settle (x : Exec α) : Exec (Except Failure α) := fun scope meter =>
  let ran := x scope meter
  { ran with outcome := .ok ran.outcome }

/-- Runs in another scope and leaves this one as it is. The value comes with the scope at the end. -/
def within (inner : Scope) (x : Exec α) : Exec (α × Scope) := fun scope meter =>
  let ran := x inner meter
  { ran with outcome := ran.outcome.map fun a => (a, ran.scope), scope := scope }

/-- Runs in a copy of the scope. -/
def fork (x : Exec α) : Exec (α × Scope) := do within (← scope) x

/-- Writes to the scope only if it succeeds. -/
def transactional (x : Exec α) : Exec α := fun scope meter =>
  let ran := x scope meter
  match ran.outcome with
  | .ok _ => ran
  | .error _ => { ran with scope := scope }

/-- Runs with a variable bound to a value, and gives the variable its former binding back, present or absent,
however the execution ends. -/
def binding (name : String) (v : Value) (x : Exec α) : Exec α := fun scope meter =>
  let ran := x (scope.set name v) meter
  { ran with scope := ran.scope.restore name (scope.get? name) }

end Exec

end Pipewright
