import Pipewright.Proofs.Narration
import Pipewright.Proofs.RelocatedJobs

/-!
# Pipelines inside pipelines

A step that runs a pipeline comes to what the pipeline comes to on its own, with its inputs for a context, and with
what is left of the limits at that moment. What it tells is what it would tell on its own, from further down.
-/
namespace Pipewright

/-- What is left of limits some levels down, when the meter shows what has been used up. The time that is left is for
the clock to tell. -/
def Limits.left (limits : Limits) (meter : Meter) (levels timeout : Nat) : Limits :=
  ⟨limits.maxSteps - meter.stats.stepsExecuted, limits.maxDepth - levels, timeout⟩

/-- A meter shows what it showed at the start, and what another one shows that began there with what was left. -/
structure Meter.Continues (limits left : Limits) (start meter alone : Meter) : Prop where
  steps : meter.stats.stepsExecuted = start.stats.stepsExecuted + alone.stats.stepsExecuted
  calls : meter.calls = start.calls ++ alone.calls
  clock : ∀ i, left.timeIsUp (alone.clock i) = limits.timeIsUp (meter.clock i)

/-- A pipeline at a place further down, and the same on its own with what is left of the limits. -/
def Relocation.nested (place : Path) {limits : Limits} {levels : Nat} (hlevels : levels ≤ limits.maxDepth)
    (start : Meter) (timeout : Nat) : Relocation where
  place := place
  levels := levels
  limits := limits
  alone := limits.left start levels timeout
  lenient := False
  meters := Meter.Continues limits (limits.left start levels timeout) start
  depth := (Nat.sub_add_cancel hlevels).symm
  inTime h htime := (h.clock 0).trans htime
  budget h hbudget := by
    have hsteps := h.steps
    simp only [Limits.left]
    omega
  late h _ htime := (h.clock 0).trans htime
  spent h _ hspent := by
    have hsteps := h.steps
    simp only [Limits.left]
    omega
  tick h _ := ⟨h.steps, h.calls, fun i => h.clock (i + 1)⟩
  record kind h := ⟨congrArg (· + 1) h.steps, h.calls, h.clock⟩
  observe _ h := ⟨h.steps, h.calls, h.clock⟩
  remember call h := ⟨h.steps, (congrArg (· ++ [call]) h.calls).trans (List.append_assoc _ _ _), h.clock⟩

namespace Job

variable {α β : Type}

end Job

namespace Runtime

open Job

section

variable (runtime : Runtime)

end

/-- While a service keeps the first step of the pipeline waiting, a branch beside it uses up a step of the budget that
the pipeline would have had on its own. -/
example :
    let slow : Step := .ability "slow" .null none
    let services : Services := ⟨fun _ => some fun _ input => .pending fun _ => .answer (.ok input)⟩
    let pipeline : Pipeline := ⟨none, none, [slow, slow], none, none⟩
    let run (steps : Nat) (pipeline : Pipeline) := runPipeline ⟨services, [], ⟨steps, 10, 300⟩⟩ pipeline .null
    let beside : Pipeline := ⟨none, none, [.parallel [.subPipeline pipeline [] none, slow] none], none, none⟩
    (run 2 pipeline).succeeded ∧
      (run 4 beside).error.map ErrorInfo.step = some (some "steps[0].steps[0].pipeline.steps[1]") := by
  decide +kernel

end Runtime

end Pipewright
