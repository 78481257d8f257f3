import Pipewright.Proofs.Ceilings
import Pipewright.Proofs.TwinRuns

/-!
# Executions at another place

The same steps are executed twice: alone, and as a part of something larger, at a longer path and deeper down, with
limits and a meter of their own. If the same is left of the limits in both, then they do the same in both, but for the
place that they stand at and the number that a limit quotes. If more may be left of them alone, this still holds as
long as no limit refuses anything in the larger whole.
-/
namespace Pipewright

theorem Path.append_key (place path : Path) (k : Key) : (place ++ path).key k = place ++ path.key k :=
  List.append_assoc place path [.key k]

theorem Path.append_index (place path : Path) (i : Nat) : (place ++ path).index i = place ++ path.index i :=
  List.append_assoc place path [.index i]

/-! ### What is told from another place -/

namespace RunError

/-- An error as it is under some limits, which quote their own numbers. -/
def quoting (limits : Limits) : RunError → RunError
  | .stepBudget _ => .stepBudget limits.maxSteps
  | .depthLimit _ => .depthLimit limits.maxDepth
  | .timeout _ => .timeout limits.timeoutSecs
  | error => error

@[simp] theorem isFatal_quoting (limits : Limits) (error : RunError) :
    (error.quoting limits).isFatal = error.isFatal := by
  cases error <;> rfl

theorem quoting_of_ordinary (limits : Limits) {error : RunError} (h : error.isFatal = false) :
    error.quoting limits = error := by
  cases error with
  | stepBudget | depthLimit | timeout => cases h
  | _ => rfl

end RunError

/-- An event as it is told from another place, some levels further down. -/
def Event.moved (place : Path) (levels : Nat) : Event Path → Event Path
  | .stepStarted path kind description depth => .stepStarted (place ++ path) kind description (depth + levels)
  | event => event.map (place ++ ·)

/-- A failure as it is at another place, under some limits. -/
def Failure.moved (place : Path) (limits : Limits) (failure : Failure) : Failure :=
  ⟨place ++ failure.path, failure.error.quoting limits⟩

theorem Failure.moved_of_ordinary (place : Path) (limits : Limits) {path : Path} {error : RunError}
    (h : error.isFatal = false) : Failure.moved place limits ⟨path, error⟩ = ⟨place ++ path, error⟩ := by
  rw [moved, RunError.quoting_of_ordinary limits h]

def Act.moved (place : Path) (levels : Nat) (limits : Limits) : Act → Act
  | .tell event => .tell (event.moved place levels)
  | .call made => .call made
  | .refuse failure => .refuse (failure.moved place limits)

namespace Abilities

/-- What the abilities answer depends on nothing but the input. -/
def Steady (abilities : Abilities) : Prop :=
  ∀ name ability, abilities.ability? name = some ability → ∀ before before' input,
    ability before input = ability before' input

end Abilities

/-- What is answered in the end does not depend on the calls made meanwhile. -/
def Reply.Steady : Reply → Prop
  | .answer _ => True
  | .pending later => (∀ calls calls', later calls = later calls') ∧ ∀ calls, (later calls).Steady

/-- What the services answer in the end depends on nothing but the input, and neither does how long they take. -/
def Services.Steady (services : Services) : Prop :=
  ∀ name service, services.service? name = some service →
    (∀ before before' input, service before input = service before' input) ∧
      ∀ before input, (service before input).Steady

namespace Step

/-- Whether a step has a list to recover with. -/
def recovers : Step → Bool
  | .tryCatch _ recovery _ _ => recovery.isSome
  | _ => false

end Step

/-! ### Relocations -/

/-- How executions are found again in something larger: where they stand in it, under which limits, and what the two
meters have to do with each other. -/
structure Relocation where
  place : Path
  levels : Nat
  /-- The limits of the larger whole. -/
  limits : Limits
  /-- The limits that the same is held to alone. -/
  alone : Limits
  /-- Whether more may be left of the limits alone than in the larger whole. -/
  lenient : Prop
  /-- What the meter of the larger whole may show, and what that of the same alone. -/
  meters : Meter → Meter → Prop
  depth : limits.maxDepth = alone.maxDepth + levels
  inTime : ∀ {meter meter'}, meters meter meter' → limits.timeIsUp (meter.clock 0) = false →
    alone.timeIsUp (meter'.clock 0) = false
  budget : ∀ {meter meter'}, meters meter meter' → meter.stats.stepsExecuted < limits.maxSteps →
    meter'.stats.stepsExecuted < alone.maxSteps
  late : ∀ {meter meter'}, meters meter meter' → ¬ lenient → limits.timeIsUp (meter.clock 0) = true →
    alone.timeIsUp (meter'.clock 0) = true
  spent : ∀ {meter meter'}, meters meter meter' → ¬ lenient → limits.maxSteps ≤ meter.stats.stepsExecuted →
    alone.maxSteps ≤ meter'.stats.stepsExecuted
  tick : ∀ {meter meter'}, meters meter meter' → (lenient → limits.timeIsUp (meter.clock 0) = false) →
    meters meter.tick meter'.tick
  record : ∀ {meter meter'} (kind : StepKind), meters meter meter' → meters (meter.record kind) (meter'.record kind)
  observe : ∀ {meter meter'} (bytes : Nat), meters meter meter' → meters (meter.observe bytes) (meter'.observe bytes)
  remember : ∀ {meter meter'} (call : Call), meters meter meter' → meters (meter.remember call) (meter'.remember call)

/-- An execution has come to the same as another one alone, but for where it stands. If a limit ended it, then deep
enough inside. -/
structure Ran.Moved {α : Type} (r : Relocation) (level : Nat) (ran alone : Ran α) : Prop where
  outcome : ran.outcome = alone.outcome.mapError (Failure.moved r.place r.limits)
  scope : ran.scope = alone.scope
  meter : r.meters ran.meter alone.meter
  acts : actsIn ran.log = (actsIn alone.log).map (Act.moved r.place r.levels r.limits)
  deep : ∀ failure, alone.outcome = .error failure → failure.error.isFatal → level ≤ failure.path.length

/-- An execution has come to the same as alone, unless a limit has refused something that may not be refused alone. -/
def Ran.Matches {α : Type} (r : Relocation) (level : Nat) (ran alone : Ran α) : Prop :=
  r.lenient ∧ refusals ran.log ≠ [] ∨ ran.Moved r level alone

namespace Ran

variable {α : Type} {r : Relocation} {level : Nat} {ran alone : Ran α}

theorem Matches.prepend (h : ran.Matches r level alone) {log log' : List Moment}
    (hlog : actsIn log = (actsIn log').map (Act.moved r.place r.levels r.limits)) :
    Matches r level { ran with log := log ++ ran.log } { alone with log := log' ++ alone.log } := by
  rcases h with ⟨hlenient, hrefused⟩ | hmoved
  · refine .inl ⟨hlenient, ?_⟩
    rw [refusals_append]
    exact fun hnil => hrefused (List.append_eq_nil_iff.mp hnil).2
  · refine .inr ⟨hmoved.outcome, hmoved.scope, hmoved.meter, ?_, hmoved.deep⟩
    rw [actsIn_append, actsIn_append, List.map_append, hlog, hmoved.acts]

theorem Matches.mono {inner : Nat} (h : ran.Matches r inner alone) (hlevel : level ≤ inner) :
    ran.Matches r level alone :=
  h.imp_right fun h => ⟨h.outcome, h.scope, h.meter, h.acts, fun failure herror hfatal =>
    Nat.le_trans hlevel (h.deep failure herror hfatal)⟩

end Ran

namespace Exec

variable {α β : Type} {r : Relocation} {level inner : Nat}

/-- Wherever two executions start with meters as they are to be, the first one comes to the same as the other one
alone. -/
def Relocates (r : Relocation) (level : Nat) (x y : Exec α) : Prop :=
  ∀ scope meter meter', r.meters meter meter' → (x scope meter).Matches r level (y scope meter')

theorem Relocates.mono {x y : Exec α} (h : Relocates r inner x y) (hlevel : level ≤ inner) : Relocates r level x y :=
  fun scope meter meter' hmeter => (h scope meter meter' hmeter).mono hlevel

theorem relocates_of_moved {x y : Exec α} (h : ∀ scope meter meter', r.meters meter meter' →
    (x scope meter).Moved r level (y scope meter')) : Relocates r level x y :=
  fun scope meter meter' hmeter => .inr (h scope meter meter' hmeter)

/-- A refusal stays one, whatever goes on from there. -/
theorem refusals_bind {x : Exec α} (next : α → Exec β) {scope : Scope} {meter : Meter}
    (h : refusals (x scope meter).log ≠ []) : refusals ((x >>= next) scope meter).log ≠ [] := by
  obtain ⟨more, hmore⟩ := exists_log_bind x next scope meter
  rw [hmore, refusals_append]
  exact fun hnil => h (List.append_eq_nil_iff.mp hnil).1

theorem relocates_bind {x y : Exec α} {next next' : α → Exec β} (h : Relocates r level x y)
    (hnext : ∀ a, Relocates r level (next a) (next' a)) : Relocates r level (x >>= next) (y >>= next') := by
  intro scope meter meter' hmeter
  rcases h scope meter meter' hmeter with ⟨hlenient, hrefused⟩ | hmoved
  · exact .inl ⟨hlenient, refusals_bind next hrefused⟩
  · have houtcome := hmoved.outcome
    cases halone : (y scope meter').outcome with
    | error failure =>
      rw [halone] at houtcome
      rw [bind_of_error houtcome, bind_of_error halone]
      refine .inr ⟨rfl, hmoved.scope, hmoved.meter, hmoved.acts, fun other herror => ?_⟩
      cases herror
      exact hmoved.deep failure halone
    | ok a =>
      rw [halone] at houtcome
      rw [bind_of_ok houtcome, bind_of_ok halone, hmoved.scope]
      exact (hnext a _ _ _ hmoved.meter).prepend hmoved.acts

theorem relocates_pure (a : α) : Relocates r level (pure a : Exec α) (pure a) :=
  relocates_of_moved fun _ _ _ hmeter => ⟨rfl, rfl, hmeter, rfl, nofun⟩

/-- A failure is passed on, if it is deep enough inside when a limit is the cause. -/
theorem relocates_raise {failure : Failure} (hdeep : failure.error.isFatal → level ≤ failure.path.length) :
    Relocates r level (raise (failure.moved r.place r.limits) : Exec α) (raise failure) :=
  relocates_of_moved fun _ _ _ hmeter => ⟨rfl, rfl, hmeter, rfl, fun _ herror => Except.error.inj herror ▸ hdeep⟩

theorem relocates_raise_own (path : Path) {error : RunError} (h : error.isFatal = false) :
    Relocates r level (raise ⟨r.place ++ path, error⟩ : Exec α) (raise ⟨path, error⟩) := by
  rw [← Failure.moved_of_ordinary r.place r.limits h]
  exact relocates_raise fun hfatal => absurd hfatal (by simp [h])

theorem relocates_carriesAt (r : Relocation) (level : Nat) (path : Path) :
    CarriesAt (r.place ++ path) path fun {_} x y => Relocates r level x y where
  pure := relocates_pure
  raise _ := relocates_raise_own path
  scope := relocates_of_moved fun _ _ _ hmeter => ⟨rfl, rfl, hmeter, rfl, nofun⟩
  bind := relocates_bind

theorem relocates_emit (event : Event Path) :
    Relocates r level (emit (event.moved r.place r.levels)) (emit event) :=
  relocates_of_moved fun _ _ _ hmeter => ⟨rfl, rfl, hmeter, rfl, nofun⟩

theorem relocates_write (f : Scope → Scope) : Relocates r level (write f) (write f) :=
  relocates_of_moved fun _ _ _ hmeter => ⟨rfl, rfl, hmeter, rfl, nofun⟩

/-- A refusal for a reason that is the same at both places, deep enough inside. -/
theorem relocates_refuse (failure : Failure) (hdeep : level ≤ failure.path.length) :
    Relocates r level (refuse (failure.moved r.place r.limits) : Exec α) (refuse failure) :=
  relocates_of_moved fun _ _ _ hmeter => ⟨rfl, rfl, hmeter, rfl, fun _ herror _ => Except.error.inj herror ▸ hdeep⟩

theorem relocates_settle_bind {x y : Exec α} {next next' : Except Failure α → Exec β} (h : Relocates r inner x y)
    (hnext : ∀ outcome, (∀ failure, outcome = .error failure → failure.error.isFatal → inner ≤ failure.path.length) →
      Relocates r level (next (outcome.mapError (Failure.moved r.place r.limits))) (next' outcome)) :
    Relocates r level (settle x >>= next) (settle y >>= next') := by
  intro scope meter meter' hmeter
  rcases h scope meter meter' hmeter with ⟨hlenient, hrefused⟩ | hmoved
  · exact .inl ⟨hlenient, refusals_bind next hrefused⟩
  · rw [settle_bind, settle_bind, hmoved.outcome, hmoved.scope]
    exact (hnext _ hmoved.deep _ _ _ hmoved.meter).prepend hmoved.acts

theorem relocates_within {x y : Exec α} (h : Relocates r level x y) (scope : Scope) :
    Relocates r level (within scope x) (within scope y) := by
  intro outer meter meter' hmeter
  rcases h scope meter meter' hmeter with hrefused | hmoved
  · exact .inl hrefused
  · rw [within, within, hmoved.outcome, hmoved.scope]
    refine .inr ⟨?_, rfl, hmoved.meter, hmoved.acts, fun failure herror => hmoved.deep failure ?_⟩
    · cases (y scope meter').outcome <;> rfl
    · cases hout : (y scope meter').outcome with
      | ok a =>
        rw [hout] at herror
        cases herror
      | error other =>
        rw [hout] at herror
        cases herror
        rfl

theorem relocates_binding {x y : Exec α} (h : Relocates r level x y) (name : String) (v : Value) :
    Relocates r level (binding name v x) (binding name v y) := by
  intro scope meter meter' hmeter
  rcases h (scope.set name v) meter meter' hmeter with hrefused | hmoved
  · exact .inl hrefused
  · refine .inr ⟨hmoved.outcome, ?_, hmoved.meter, hmoved.acts, hmoved.deep⟩
    rw [binding, binding, hmoved.scope]

theorem relocates_transactional {x y : Exec α} (h : Relocates r level x y) :
    Relocates r level (transactional x) (transactional y) := by
  intro scope meter meter' hmeter
  rcases h scope meter meter' hmeter with ⟨hlenient, hrefused⟩ | hmoved
  · exact .inl ⟨hlenient, by rwa [(transactional_keeps x scope meter).2.2]⟩
  · right
    have houtcome := hmoved.outcome
    cases halone : (y scope meter').outcome with
    | ok a =>
      rw [halone] at houtcome
      rw [transactional_of_ok houtcome, transactional_of_ok halone]
      exact hmoved
    | error failure =>
      rw [halone] at houtcome
      rw [transactional_of_error houtcome, transactional_of_error halone]
      refine ⟨rfl, rfl, hmoved.meter, hmoved.acts, fun other herror => ?_⟩
      cases herror
      exact hmoved.deep failure halone

end Exec

end Pipewright
