import Pipewright.Proofs.Mentions
import Pipewright.Proofs.Narration

/-!
# Executions that differ in what they leave alone

The same is executed twice, from scopes that have come from two others and differ only where nothing has been written
to either. Two executions are twins if they do the same, act by act, come to the same, and leave such scopes behind.
The sizes of the scopes are all that their meters may tell apart.
-/
namespace Pipewright

namespace Fields

variable {α : Type}

theorem get?_extend {extra : Fields α} (h : Ordered extra) (fields : Fields α) (name : String) :
    get? name (extend fields extra) = (get? name extra).or (get? name fields) := by
  induction extra generalizing fields with
  | nil => rfl
  | cons entry rest ih =>
    obtain ⟨key, a⟩ := entry
    obtain ⟨hhead, hrest⟩ := List.pairwise_cons.mp h
    have hstep : extend fields ((key, a) :: rest) = extend (insert key a fields) rest := rfl
    rw [hstep, ih hrest, get?_insert, get?]
    split
    next heq =>
      subst heq
      rw [get?_eq_none_of_lt hhead]
      rfl
    · rfl

end Fields

/-- A scope is read again from the object that it is shown as. -/
theorem Scope.get?_ofValue_toValue (scope : Scope) (name : String) :
    (Scope.ofValue scope.toValue).get? name = scope.get? name :=
  (Fields.get?_extend scope.ordered [] name).trans (Option.or_none)

/-- Two scopes that have come from two others: at each name they are the same, or both have been left alone. -/
def Scope.Kin (start start' scope scope' : Scope) : Prop :=
  ∀ name, scope'.get? name = scope.get? name ∨ scope.get? name = start.get? name ∧ scope'.get? name = start'.get? name

namespace Scope.Kin

variable {start start' scope scope' other other' : Scope} {names : List String}

theorem refl (start start' : Scope) : Kin start start' start start' := fun _ => .inr ⟨rfl, rfl⟩

/-- Scopes that start from the same are the same. -/
theorem get?_eq (h : Kin start start scope scope') (name : String) : scope'.get? name = scope.get? name :=
  (h name).elim id fun h => h.2.trans h.1.symm

/-- Where two scopes were the same at the start they still are. -/
theorem agreeOn (h : Kin start start' scope scope') (hstart : AgreeOn names start start') :
    AgreeOn names scope scope' :=
  fun name hname => (h name).elim id fun h => h.2.trans ((hstart name hname).trans h.1.symm)

theorem set (h : Kin start start' scope scope') (name : String) (v : Value) :
    Kin start start' (scope.set name v) (scope'.set name v) := by
  intro other
  by_cases hname : name = other
  · subst hname
    simp
  · rw [get?_set_of_ne hname, get?_set_of_ne hname]
    exact h other

theorem setAll (h : Kin start start' scope scope') (entries : List (String × Value)) :
    Kin start start' (scope.setAll entries) (scope'.setAll entries) := by
  induction entries generalizing scope scope' with
  | nil => exact h
  | cons entry rest ih => exact ih (h.set entry.1 entry.2)

/-- Former bindings that are akin may be given back. -/
theorem restore (h : Kin start start' scope scope') (hformer : Kin start start' other other') (name : String) :
    Kin start start' (scope.restore name (other.get? name)) (scope'.restore name (other'.get? name)) := by
  intro key
  by_cases hname : name = key
  · subst hname
    simpa using hformer name
  · rw [get?_restore_of_ne hname, get?_restore_of_ne hname]
    exact h key

end Scope.Kin

/-- Two meters show the same but for the size of the scopes that were observed. -/
structure Meter.Twin (meter meter' : Meter) : Prop where
  steps : meter'.stats.stepsExecuted = meter.stats.stepsExecuted
  types : meter'.stats.stepsByType = meter.stats.stepsByType
  calls : meter'.calls = meter.calls
  clock : meter'.clock = meter.clock

namespace Meter.Twin

variable {meter meter' : Meter}

theorem tick (h : Twin meter meter') : Twin meter.tick meter'.tick :=
  ⟨h.steps, h.types, h.calls, congrArg Clock.later h.clock⟩

theorem observe (h : Twin meter meter') (bytes bytes' : Nat) : Twin (meter.observe bytes) (meter'.observe bytes') :=
  ⟨h.steps, h.types, h.calls, h.clock⟩

theorem remember (h : Twin meter meter') (call : Call) : Twin (meter.remember call) (meter'.remember call) :=
  ⟨h.steps, h.types, congrArg (· ++ [call]) h.calls, h.clock⟩

theorem record (h : Twin meter meter') (kind : StepKind) : Twin (meter.record kind) (meter'.record kind) := by
  refine ⟨congrArg (· + 1) h.steps, ?_, h.calls, h.clock⟩
  change Fields.insert _ (meter'.stats.countFor _ + 1) meter'.stats.stepsByType =
    Fields.insert _ (meter.stats.countFor _ + 1) meter.stats.stepsByType
  rw [Stats.countFor, Stats.countFor, h.types]

end Meter.Twin

/-- What a log did, oldest first. -/
def actsIn (log : List Moment) : List Act := log.map Moment.act

@[simp] theorem actsIn_append (first second : List Moment) :
    actsIn (first ++ second) = actsIn first ++ actsIn second :=
  List.map_append

/-- What is told is read off the acts. -/
theorem eventsIn_eq (log : List Moment) : eventsIn log = (actsIn log).filterMap Act.event? := by
  rw [actsIn, List.filterMap_map]
  rfl

theorem eventsIn_congr {log log' : List Moment} (h : actsIn log' = actsIn log) : eventsIn log' = eventsIn log := by
  rw [eventsIn_eq, eventsIn_eq, h]

/-- Two executions have done the same and come to the same, in scopes that are akin. -/
structure Ran.Twin {α : Type} (akin : Scope → Scope → Prop) (ran ran' : Ran α) : Prop where
  outcome : ran'.outcome = ran.outcome
  scope : akin ran.scope ran'.scope
  meter : ran.meter.Twin ran'.meter
  acts : actsIn ran'.log = actsIn ran.log

theorem Ran.Twin.prepend {α : Type} {akin : Scope → Scope → Prop} {ran ran' : Ran α} (h : ran.Twin akin ran')
    {log log' : List Moment} (hlog : actsIn log' = actsIn log) :
    Twin akin { ran with log := log ++ ran.log } { ran' with log := log' ++ ran'.log } :=
  ⟨h.outcome, h.scope, h.meter, by rw [actsIn_append, actsIn_append, hlog, h.acts]⟩

namespace Exec

variable {α β : Type} {akin within' : Scope → Scope → Prop}

/-- From scopes that are akin, two executions do the same and come to the same. -/
def Twin (akin : Scope → Scope → Prop) (x y : Exec α) : Prop :=
  ∀ scope scope' meter meter', akin scope scope' → meter.Twin meter' →
    (x scope meter).Twin akin (y scope' meter')

/-- From scopes that have come from two others, an execution does the same and comes to the same. -/
abbrev Blind (start start' : Scope) (x : Exec α) : Prop := Twin (Scope.Kin start start') x x

theorem twin_ofOutcome (outcome : Except Failure α) : Twin akin (ofOutcome outcome) (ofOutcome outcome) :=
  fun _ _ _ _ hscope hmeter => ⟨rfl, hscope, hmeter, rfl⟩

theorem twin_bind {x y : Exec α} {next next' : α → Exec β} (h : Twin akin x y)
    (hnext : ∀ a, Twin akin (next a) (next' a)) : Twin akin (x >>= next) (y >>= next') := by
  intro scope scope' meter meter' hscope hmeter
  have hran := h scope scope' meter meter' hscope hmeter
  cases houtcome : (x scope meter).outcome with
  | error failure =>
    rw [bind_of_error houtcome, bind_of_error (hran.outcome.trans houtcome)]
    exact ⟨rfl, hran.scope, hran.meter, hran.acts⟩
  | ok a =>
    rw [bind_of_ok houtcome, bind_of_ok (hran.outcome.trans houtcome)]
    exact (hnext a _ _ _ _ hran.scope hran.meter).prepend hran.acts

theorem twin_chains (akin : Scope → Scope → Prop) : Chains (Twin akin) where
  pure a := twin_ofOutcome (.ok a)
  raise failure _ := twin_ofOutcome (.error failure)
  bind := twin_bind

/-- What is read of the scope may differ, as long as what follows does not. -/
theorem twin_scope_bind {next next' : Scope → Exec β}
    (h : ∀ scope scope', akin scope scope' → Twin akin (next scope) (next' scope')) :
    Twin akin (Exec.scope >>= next) (Exec.scope >>= next') :=
  fun scope scope' meter meter' hscope hmeter => h scope scope' hscope scope scope' meter meter' hscope hmeter

theorem twin_settle_bind {x y : Exec α} {next next' : Except Failure α → Exec β} (h : Twin akin x y)
    (hnext : ∀ outcome, Twin akin (next outcome) (next' outcome)) :
    Twin akin (settle x >>= next) (settle y >>= next') := by
  intro scope scope' meter meter' hscope hmeter
  have hran := h scope scope' meter meter' hscope hmeter
  rw [settle_bind, settle_bind, hran.outcome]
  exact (hnext _ _ _ _ _ hran.scope hran.meter).prepend hran.acts

theorem twin_transactional {x y : Exec α} (h : Twin akin x y) : Twin akin (transactional x) (transactional y) := by
  intro scope scope' meter meter' hscope hmeter
  have hran := h scope scope' meter meter' hscope hmeter
  cases houtcome : (x scope meter).outcome with
  | ok a =>
    rw [transactional_of_ok houtcome, transactional_of_ok (hran.outcome.trans houtcome)]
    exact hran
  | error failure =>
    rw [transactional_of_error houtcome, transactional_of_error (hran.outcome.trans houtcome)]
    exact ⟨rfl, hscope, hran.meter, hran.acts⟩

/-- Executions in scopes of their own may be akin in a way of their own. -/
theorem twin_within_bind {inner inner' : Scope} {x y : Exec α} {next next' : α × Scope → Exec β}
    (hinner : within' inner inner') (h : Twin within' x y)
    (hnext : ∀ a final final', within' final final' → Twin akin (next (a, final)) (next' (a, final'))) :
    Twin akin (within inner x >>= next) (within inner' y >>= next') := by
  intro scope scope' meter meter' hscope hmeter
  have hran := h inner inner' meter meter' hinner hmeter
  cases houtcome : (x inner meter).outcome with
  | error failure =>
    have hleft : (within inner x scope meter).outcome = .error failure := by rw [within, houtcome]; rfl
    have hright : (within inner' y scope' meter').outcome = .error failure := by
      rw [within, hran.outcome, houtcome]; rfl
    rw [bind_of_error hleft, bind_of_error hright]
    exact ⟨rfl, hscope, hran.meter, hran.acts⟩
  | ok a =>
    have hleft : (within inner x scope meter).outcome = .ok (a, (x inner meter).scope) := by
      rw [within, houtcome]; rfl
    have hright : (within inner' y scope' meter').outcome = .ok (a, (y inner' meter').scope) := by
      rw [within, hran.outcome, houtcome]; rfl
    rw [bind_of_ok hleft, bind_of_ok hright]
    have hrest := hnext a _ _ hran.scope scope scope' _ _ hscope hran.meter
    exact hrest.prepend hran.acts

theorem blind_binding {start start' : Scope} {x : Exec α} (h : x.Blind start start') (name : String) (v : Value) :
    (binding name v x).Blind start start' := by
  intro scope scope' meter meter' hscope hmeter
  have hran := h _ _ meter meter' (hscope.set name v) hmeter
  exact ⟨hran.outcome, hran.scope.restore hscope name, hran.meter, hran.acts⟩

theorem blind_write {start start' : Scope} (name : String) (v : Value) :
    (write fun scope => scope.set name v).Blind start start' :=
  fun _ _ _ _ hscope hmeter => ⟨rfl, hscope.set name v, hmeter, rfl⟩

theorem twin_emit (event : Event Path) : Twin akin (emit event) (emit event) :=
  fun _ _ _ _ hscope hmeter => ⟨rfl, hscope, hmeter, rfl⟩

theorem twin_refuse (failure : Failure) : Twin akin (refuse failure : Exec α) (refuse failure) :=
  fun _ _ _ _ hscope hmeter => ⟨rfl, hscope, hmeter, rfl⟩

end Exec

end Pipewright
