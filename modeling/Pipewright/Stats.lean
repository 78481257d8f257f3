import Pipewright.Value

/-!
# Statistics of a run

How many steps ran, of which types, and how large the scope became.
-/
namespace Pipewright

structure Stats where
  stepsExecuted : Nat
  /-- The largest size of a scope that was observed. -/
  memoryPeak : Nat
  stepsByType : Fields Nat
  ordered : Fields.Ordered stepsByType

namespace Stats

def none : Stats := ⟨0, 0, [], Fields.ordered_nil⟩

def countFor (stats : Stats) (type : String) : Nat := (Fields.get? type stats.stepsByType).getD 0

/-- The sum of the counts of all types. -/
def total (stats : Stats) : Nat := Fields.sum stats.stepsByType

/-- Counts a step of a type. -/
def record (stats : Stats) (type : String) : Stats :=
  { stats with
    stepsExecuted := stats.stepsExecuted + 1
    stepsByType := Fields.insert type (stats.countFor type + 1) stats.stepsByType
    ordered := Fields.ordered_insert type _ stats.ordered }

def observe (stats : Stats) (bytes : Nat) : Stats :=
  { stats with memoryPeak := max stats.memoryPeak bytes }

def hasRun (stats : Stats) : Bool := 0 < stats.stepsExecuted

/-- The statistics of a run that took some seconds, as a value. -/
def toValue (stats : Stats) (seconds : Double) : Value :=
  let duration := match seconds with
    | .finite x => .num (.float x)
    | _ => .null
  .obj (Fields.ofList [("steps_executed", .nat stats.stepsExecuted), ("memory_peak", .nat stats.memoryPeak),
    ("steps_by_type", .obj (stats.stepsByType.map fun (type, count) => (type, .nat count))),
    ("duration", duration)])

theorem countFor_record (stats : Stats) (recorded type : String) :
    (stats.record recorded).countFor type = stats.countFor type + if recorded = type then 1 else 0 := by
  rw [countFor, record, Fields.get?_insert]
  split
  next h =>
    subst h
    rfl
  · rfl

theorem total_record (stats : Stats) (type : String) : (stats.record type).total = stats.total + 1 := by
  have h := Fields.sum_insert type (stats.countFor type + 1) stats.ordered
  have hcount : (Fields.get? type stats.stepsByType).getD 0 = stats.countFor type := rfl
  change Fields.sum (Fields.insert type (stats.countFor type + 1) stats.stepsByType) =
    Fields.sum stats.stepsByType + 1
  omega

end Stats

end Pipewright
