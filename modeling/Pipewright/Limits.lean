/-!
# Limits

The ceilings that a run is held to. Pipelines inside pipelines share them.
-/
namespace Pipewright

structure Limits where
  /-- How many steps may run, nested and repeated ones counted. -/
  maxSteps : Nat
  /-- How deep step lists may nest; the top-level list is at depth zero. -/
  maxDepth : Nat
  /-- The time that a run may take. -/
  timeoutSecs : Nat
deriving DecidableEq

namespace Limits

def standard : Limits := ⟨1000, 10, 300⟩

/-- Whether the time is up when some whole seconds have passed. -/
def timeIsUp (limits : Limits) (seconds : Nat) : Bool := limits.timeoutSecs ≤ seconds

/-- The limits with some of them replaced. -/
def override (limits : Limits) (maxSteps maxDepth timeoutSecs : Option Nat) : Limits :=
  ⟨maxSteps.getD limits.maxSteps, maxDepth.getD limits.maxDepth, timeoutSecs.getD limits.timeoutSecs⟩

end Limits

end Pipewright
