import Pipewright.Proofs.Halting
import Pipewright.Proofs.Recovery

/-!
# Executions under lower and higher limits

The same is executed twice, under limits that one execution may meet before the other does. As long as no limit
refuses anything they go in lockstep: they do the same, count the same and write the same. The first refusal that
only one of them meets cuts that one off, and what it has done by then is where the other one goes on from.
-/
namespace Pipewright

/-- Limits that are no higher than others. The time is the same. -/
structure Limits.Below (limits larger : Limits) : Prop where
  steps : limits.maxSteps ≤ larger.maxSteps
  depth : limits.maxDepth ≤ larger.maxDepth
  time : larger.timeoutSecs = limits.timeoutSecs

/-! ### Deeds -/

/-- An act that does something, rather than being refused. -/
def Act.deed? : Act → Option Act
  | .refuse _ => none
  | act => some act

/-- What a log tells and calls, oldest first. -/
def deeds (log : List Moment) : List Act := log.filterMap fun moment => moment.act.deed?

@[simp] theorem deeds_append (first second : List Moment) : deeds (first ++ second) = deeds first ++ deeds second :=
  List.filterMap_append

/-- Two meters show the same but for the time, which is not up, and no more steps than are allowed. -/
structure Meter.Alike (limits : Limits) (meter other : Meter) : Prop where
  stats : other.stats = meter.stats
  calls : other.calls = meter.calls
  budget : meter.stats.stepsExecuted ≤ limits.maxSteps
  inTime : ∀ i, limits.timeIsUp (meter.clock i) = false
  otherInTime : ∀ i, limits.timeIsUp (other.clock i) = false

namespace Meter.Alike

variable {limits : Limits} {meter other : Meter}

theorem fresh {clock clock' : Clock} (h : ∀ i, limits.timeIsUp (clock i) = false)
    (h' : ∀ i, limits.timeIsUp (clock' i) = false) : Alike limits (.fresh clock) (.fresh clock') :=
  ⟨rfl, rfl, Nat.zero_le _, h, h'⟩

theorem tick (h : Alike limits meter other) : Alike limits meter.tick other.tick :=
  ⟨h.stats, h.calls, h.budget, fun i => h.inTime (i + 1), fun i => h.otherInTime (i + 1)⟩

theorem record (h : Alike limits meter other) (kind : StepKind)
    (hbudget : meter.stats.stepsExecuted < limits.maxSteps) : Alike limits (meter.record kind) (other.record kind) :=
  ⟨congrArg (Stats.record · kind.name) h.stats, h.calls, hbudget, h.inTime, h.otherInTime⟩

theorem observe (h : Alike limits meter other) (bytes : Nat) :
    Alike limits (meter.observe bytes) (other.observe bytes) :=
  ⟨congrArg (Stats.observe · bytes) h.stats, h.calls, h.budget, h.inTime, h.otherInTime⟩

theorem remember (h : Alike limits meter other) (call : Call) :
    Alike limits (meter.remember call) (other.remember call) :=
  ⟨h.stats, congrArg (· ++ [call]) h.calls, h.budget, h.inTime, h.otherInTime⟩

end Meter.Alike

/-! ### Endings -/

/-- Two executions have come to the same. -/
structure Ran.Same {α : Type} (limits : Limits) (ran other : Ran α) : Prop where
  outcome : other.outcome = ran.outcome
  scope : other.scope = ran.scope
  meter : Meter.Alike limits ran.meter other.meter
  deeds : deeds other.log = deeds ran.log

/-- The budget is spent and the time is not up: all that can still happen is that the budget refuses. -/
structure Meter.Spent (limits : Limits) (meter : Meter) : Prop where
  spent : limits.maxSteps ≤ meter.stats.stepsExecuted
  inTime : ∀ i, limits.timeIsUp (meter.clock i) = false

/-- A log goes on where another one ends, with the start of a step. -/
def GoesOn (log further : List Moment) : Prop :=
  ∃ start rest, start.startedType?.isSome ∧ deeds further = deeds log ++ start :: rest

namespace GoesOn

variable {log further : List Moment}

theorem extend (h : GoesOn log further) (more : List Moment) : GoesOn log (further ++ more) := by
  obtain ⟨start, rest, hstart, hdeeds⟩ := h
  refine ⟨start, rest ++ deeds more, hstart, ?_⟩
  rw [deeds_append, hdeeds, List.append_assoc, List.cons_append]

/-- It does not matter how often the log that ends is refused to go on. -/
theorem idle (h : GoesOn log further) {more : List Moment} (hidle : deeds more = []) :
    GoesOn (log ++ more) further := by
  obtain ⟨start, rest, hstart, hdeeds⟩ := h
  refine ⟨start, rest, hstart, ?_⟩
  rw [deeds_append, hidle, List.append_nil, hdeeds]

theorem prepend (h : GoesOn log further) {first other : List Moment} (hfirst : deeds other = deeds first) :
    GoesOn (first ++ log) (other ++ further) := by
  obtain ⟨start, rest, hstart, hdeeds⟩ := h
  refine ⟨start, rest, hstart, ?_⟩
  rw [deeds_append, deeds_append, hfirst, hdeeds, List.append_assoc]

end GoesOn

/-- An execution was ended by a limit, deep enough inside. If the other one may nest its lists no deeper, that was
the budget of steps, and the other execution goes on with the step that it refused. -/
structure Ran.Cut {α : Type} (limits larger : Limits) (level : Nat) (ran other : Ran α) : Prop where
  refused : ∃ failure, ran.outcome = .error failure ∧ failure.error.isFatal ∧ level ≤ failure.path.length
  ahead : limits.maxDepth = larger.maxDepth → ran.meter.Spent limits ∧ GoesOn ran.log other.log

/-- Two executions come to the same, unless a limit cuts off the first of them. -/
def Ran.Follows {α : Type} (limits larger : Limits) (level : Nat) (ran other : Ran α) : Prop :=
  ran.Same limits other ∨ ran.Cut limits larger level other

namespace Ran

variable {α : Type} {limits larger : Limits} {level : Nat} {ran other : Ran α}

theorem Follows.prepend (h : ran.Follows limits larger level other) {first second : List Moment}
    (hfirst : Pipewright.deeds second = Pipewright.deeds first) :
    Follows limits larger level { ran with log := first ++ ran.log } { other with log := second ++ other.log } := by
  rcases h with hsame | hcut
  · refine .inl ⟨hsame.outcome, hsame.scope, hsame.meter, ?_⟩
    rw [deeds_append, deeds_append, hfirst, hsame.deeds]
  · refine .inr ⟨hcut.refused, fun hdepth => ?_⟩
    obtain ⟨hspent, hahead⟩ := hcut.ahead hdepth
    exact ⟨hspent, hahead.prepend hfirst⟩

end Ran

namespace Exec

variable {α β : Type} {limits larger : Limits} {level inner : Nat}

/-- Two computations come to the same from wherever they start, unless a limit cuts off the first of them. -/
def Follows (limits larger : Limits) (level : Nat) (x y : Exec α) : Prop :=
  ∀ scope meter other, Meter.Alike limits meter other → (x scope meter).Follows limits larger level (y scope other)

theorem Follows.mono {x y : Exec α} (h : Follows limits larger inner x y) (hlevel : level ≤ inner) :
    Follows limits larger level x y := by
  intro scope meter other hmeter
  rcases h scope meter other hmeter with hsame | hcut
  · exact .inl hsame
  · obtain ⟨failure, herror, hfatal, hdeep⟩ := hcut.refused
    exact .inr ⟨⟨failure, herror, hfatal, Nat.le_trans hlevel hdeep⟩, hcut.ahead⟩

theorem exists_log_bind (x : Exec α) (next : α → Exec β) (scope : Scope) (meter : Meter) :
    ∃ more, ((x >>= next) scope meter).log = (x scope meter).log ++ more := by
  cases h : (x scope meter).outcome with
  | error failure =>
    rw [bind_of_error h]
    exact ⟨[], (List.append_nil _).symm⟩
  | ok a =>
    rw [bind_of_ok h]
    exact ⟨_, rfl⟩

theorem transactional_keeps (x : Exec α) (scope : Scope) (meter : Meter) :
    (transactional x scope meter).outcome = (x scope meter).outcome ∧
      (transactional x scope meter).meter = (x scope meter).meter ∧
      (transactional x scope meter).log = (x scope meter).log := by
  cases h : (x scope meter).outcome with
  | ok a =>
    rw [transactional_of_ok h]
    exact ⟨h, rfl, rfl⟩
  | error failure =>
    rw [transactional_of_error h]
    exact ⟨rfl, rfl, rfl⟩

end Exec

end Pipewright
