import Pipewright.Proofs.Composition
import Pipewright.Proofs.JobComposition
import Pipewright.Proofs.Promptness

/-!
# How the meter and the log grow

`Grows` says all that an execution at a path may do to the meter and the log, act by act: a step starts only
within the limits and is counted as it does, an ability is called only by a step of its own kind, and a limit
refuses only for its reason. What a run keeps is shown of these acts once, whatever steps it is made of. A job does
nothing else each time that it is polled, whatever the meter shows by then.
-/
namespace Pipewright

namespace Event

/-- The type of the step that an event tells the start of. -/
def startedType? : Event Path → Option String
  | .stepStarted _ kind _ _ => some kind.name
  | _ => none

/-- Where the step stands that an event tells of. -/
def place? : Event Path → Option Path
  | .stepStarted path .. | .stepCompleted path _ | .stepFailed path _ | .errorRecovered path .. => some path
  | .pipelineStarted .. | .pipelineCompleted .. => none

end Event

namespace Act

def startedType? : Act → Option String
  | .tell event => event.startedType?
  | _ => none

def call? : Act → Option Call
  | .call made => some made
  | _ => none

def refusal? : Act → Option Failure
  | .refuse failure => some failure
  | _ => none

/-- Where the step or the list of steps stands that an act is about. -/
def place? : Act → Option Path
  | .tell event => event.place?
  | .call _ => none
  | .refuse failure => some failure.path

end Act

/-- Whether a limit fails with an error at what the meter shows. -/
def Limits.Refuses (limits : Limits) (meter : Meter) : RunError → Prop
  | .stepBudget limit => limit = limits.maxSteps ∧ limits.maxSteps ≤ meter.stats.stepsExecuted
  | .depthLimit limit => limit = limits.maxDepth
  | .timeout seconds => seconds = limits.timeoutSecs
  | _ => False

theorem Limits.Refuses.isFatal {limits : Limits} {meter : Meter} {error : RunError}
    (h : limits.Refuses meter error) : error.isFatal := by
  cases error with
  | stepBudget | depthLimit | timeout => rfl
  | _ => exact h.elim

/-- What an execution at a path may do to the meter and the log. -/
inductive Grows (limits : Limits) : Path → Meter → List Moment → Meter → Prop where
  | nil (path : Path) (meter : Meter) : Grows limits path meter [] meter
  | append {path : Path} {before between after : Meter} {first second : List Moment} :
    Grows limits path before first between → Grows limits path between second after →
    Grows limits path before (first ++ second) after
  | inside {path inner : Path} {before after : Meter} {log : List Moment} :
    path <+: inner → Grows limits inner before log after → Grows limits path before log after
  | tick (path : Path) (meter : Meter) : Grows limits path meter [] meter.tick
  | observe (path : Path) (meter : Meter) (bytes : Nat) : Grows limits path meter [] (meter.observe bytes)
  | start (path : Path) (meter : Meter) (kind : StepKind) (description : String) {depth : Nat} :
    depth ≤ limits.maxDepth → meter.stats.stepsExecuted < limits.maxSteps →
    Grows limits path meter [⟨.tell (.stepStarted path kind description depth), meter.record kind⟩]
      (meter.record kind)
  /-- The step of an ability starts, and calls it. -/
  | startCall (path : Path) (meter : Meter) (description : String) {depth : Nat} (call : Call) :
    depth ≤ limits.maxDepth → meter.stats.stepsExecuted < limits.maxSteps →
    Grows limits path meter
      [⟨.tell (.stepStarted path .ability description depth), meter.record .ability⟩,
        ⟨.call call, (meter.record .ability).remember call⟩]
      ((meter.record .ability).remember call)
  | tell {path : Path} (meter : Meter) {event : Event Path} : event.startedType? = none →
    (∀ place, event.place? = some place → place = path) →
    Grows limits path meter [⟨.tell event, meter⟩] meter
  | refuse (path : Path) {meter : Meter} {error : RunError} : limits.Refuses meter error →
    Grows limits path meter [⟨.refuse ⟨path, error⟩, meter⟩] meter

/-- A moment that an execution may have at a path itself. -/
inductive Allowed (limits : Limits) : Path → Moment → Prop where
  | start (path : Path) (meter : Meter) (kind : StepKind) (description : String) {depth : Nat} :
    depth ≤ limits.maxDepth → meter.stats.stepsExecuted < limits.maxSteps →
    Allowed limits path ⟨.tell (.stepStarted path kind description depth), meter.record kind⟩
  | call (path : Path) (meter : Meter) (made : Call) : Allowed limits path ⟨.call made, meter.remember made⟩
  | tell {path : Path} (meter : Meter) {event : Event Path} : event.startedType? = none →
    (∀ place, event.place? = some place → place = path) → Allowed limits path ⟨.tell event, meter⟩
  | refuse (path : Path) {meter : Meter} {error : RunError} : limits.Refuses meter error →
    Allowed limits path ⟨.refuse ⟨path, error⟩, meter⟩

namespace Grows

variable {limits : Limits} {path : Path} {before after : Meter} {log : List Moment}

/-- A log of a single moment splits at that moment only. -/
theorem split_singleton {only moment : Moment} {past future : List Moment}
    (h : [only] = past ++ moment :: future) : past = [] ∧ only = moment := by
  cases past with
  | nil => exact ⟨rfl, (List.cons.inj h).1⟩
  | cons _ rest => simp at h

/-- The log up to a moment has grown to what the meter shows at that moment. -/
theorem upTo (h : Grows limits path before log after) {past future : List Moment} {moment : Moment}
    (hlog : log = past ++ moment :: future) : Grows limits path before (past ++ [moment]) moment.meter := by
  induction h generalizing past future with
  | nil | tick | observe => simp at hlog
  | append first second ihfirst ihsecond =>
    rcases List.append_eq_append_iff.mp hlog with ⟨middle, rfl, hsecond⟩ | ⟨middle, hfirst, hsecond⟩
    · rw [List.append_assoc]
      exact first.append (ihsecond hsecond)
    · cases middle with
      | nil =>
        rw [List.append_nil] at hfirst
        rw [← hfirst, ← List.nil_append [moment]]
        exact first.append (ihsecond hsecond.symm)
      | cons _ rest =>
        obtain ⟨rfl, -⟩ := List.cons.inj hsecond
        exact ihfirst hfirst
  | inside hinner _ ih => exact (ih hlog).inside hinner
  | start path meter kind description hdepth hbudget =>
    obtain ⟨rfl, rfl⟩ := split_singleton hlog
    exact .start path meter kind description hdepth hbudget
  | startCall path meter description call hdepth hbudget =>
    -- Between the start of the step and its call the log has grown by a start alone.
    cases past with
    | nil =>
      obtain ⟨rfl, -⟩ := List.cons.inj hlog
      exact .start path meter .ability description hdepth hbudget
    | cons _ rest =>
      obtain ⟨rfl, hrest⟩ := List.cons.inj hlog
      obtain ⟨rfl, rfl⟩ := split_singleton hrest
      exact .startCall path meter description call hdepth hbudget
  | tell meter hstart hplace =>
    obtain ⟨rfl, rfl⟩ := split_singleton hlog
    exact .tell meter hstart hplace
  | refuse path hrefuses =>
    obtain ⟨rfl, rfl⟩ := split_singleton hlog
    exact .refuse path hrefuses

/-- Every moment is one that an execution may have at the path or below it. -/
theorem allowed (h : Grows limits path before log after) {moment : Moment} (hmoment : moment ∈ log) :
    ∃ inner, path <+: inner ∧ Allowed limits inner moment := by
  induction h with
  | nil | tick | observe => cases hmoment
  | append _ _ ihfirst ihsecond => exact (List.mem_append.mp hmoment).elim ihfirst ihsecond
  | inside hinner _ ih =>
    obtain ⟨inner, hpath, hallowed⟩ := ih hmoment
    exact ⟨inner, hinner.trans hpath, hallowed⟩
  | start path meter kind description hdepth hbudget =>
    obtain rfl := List.mem_singleton.mp hmoment
    exact ⟨path, List.prefix_rfl, .start path meter kind description hdepth hbudget⟩
  | startCall path meter description call hdepth hbudget =>
    rcases List.mem_cons.mp hmoment with rfl | hmoment
    · exact ⟨path, List.prefix_rfl, .start path meter .ability description hdepth hbudget⟩
    · obtain rfl := List.mem_singleton.mp hmoment
      exact ⟨path, List.prefix_rfl, .call path (meter.record .ability) call⟩
  | @tell path meter event hstart hplace =>
    obtain rfl := List.mem_singleton.mp hmoment
    exact ⟨path, List.prefix_rfl, .tell meter hstart hplace⟩
  | refuse path hrefuses =>
    obtain rfl := List.mem_singleton.mp hmoment
    exact ⟨path, List.prefix_rfl, .refuse path hrefuses⟩

/-- Every act is about a place at the path of the execution or below it. -/
theorem placed (h : Grows limits path before log after) {moment : Moment} (hmoment : moment ∈ log) {place : Path}
    (hplace : moment.act.place? = some place) : path <+: place := by
  obtain ⟨inner, hinner, hallowed⟩ := h.allowed hmoment
  suffices heq : place = inner from heq ▸ hinner
  cases hallowed with
  | start | refuse => exact (Option.some.inj hplace).symm
  | call => cases hplace
  | tell _ _ hat => exact hat place hplace

/-- Limits refuse for their reasons only. -/
theorem refused (h : Grows limits path before log after) {moment : Moment} (hmoment : moment ∈ log)
    {failure : Failure} (hrefusal : moment.act = .refuse failure) :
    limits.Refuses moment.meter failure.error := by
  obtain ⟨inner, -, hallowed⟩ := h.allowed hmoment
  cases hallowed with
  | start | call | tell => cases hrefusal
  | refuse hrefuses =>
    cases hrefusal
    exact hrefuses

/-- No step starts deeper than the limit. -/
theorem depth (h : Grows limits path before log after) {moment : Moment} (hmoment : moment ∈ log) {place : Path}
    {kind : StepKind} {description : String} {depth : Nat}
    (hstarted : moment.act = .tell (.stepStarted place kind description depth)) : depth ≤ limits.maxDepth := by
  obtain ⟨inner, -, hallowed⟩ := h.allowed hmoment
  cases hallowed with
  | start _ _ _ hdepth =>
    cases hstarted
    exact hdepth
  | call | refuse => cases hstarted
  | tell _ hnone =>
    cases hstarted
    cases hnone

end Grows

namespace Exec

variable {α β : Type} {limits : Limits} {path inner : Path}

/-- The meter and the log grow as they may at a path. -/
def GrowsAt (limits : Limits) (path : Path) (x : Exec α) : Prop :=
  ∀ scope meter, Grows limits path meter (x scope meter).log (x scope meter).meter

theorem growsAt_bind {x : Exec α} {next : α → Exec β} (hx : x.GrowsAt limits path)
    (hnext : ∀ a, (next a).GrowsAt limits path) : (x >>= next).GrowsAt limits path := by
  intro scope meter
  cases h : (x scope meter).outcome with
  | error failure =>
    rw [bind_of_error h]
    exact hx scope meter
  | ok a =>
    rw [bind_of_ok h]
    exact (hx scope meter).append (hnext a _ _)

theorem growsAt_composes (limits : Limits) (path : Path) : Composes (GrowsAt limits path) where
  pure _ := fun _ meter => .nil path meter
  raise _ _ := fun _ meter => .nil path meter
  scope := fun _ meter => .nil path meter
  bind := growsAt_bind

theorem GrowsAt.inside {x : Exec α} (h : x.GrowsAt limits inner) (hinner : path <+: inner) :
    x.GrowsAt limits path :=
  fun scope meter => (h scope meter).inside hinner

theorem growsAt_emit {event : Event Path} (hstart : event.startedType? = none)
    (hplace : ∀ place, event.place? = some place → place = path) : (emit event).GrowsAt limits path :=
  fun _ meter => .tell meter hstart hplace

theorem growsAt_raise (failure : Failure) : (raise failure : Exec α).GrowsAt limits path :=
  fun _ meter => .nil path meter

end Exec

namespace Engine

open Exec

variable (engine : Engine) (path : Path)

section

variable {meter : Meter} (depth : Nat) (s : Step) (scope : Scope)

theorem startStep_of_late (htime : engine.limits.timeIsUp (meter.clock 0) = true) :
    engine.startStep s path depth scope meter =
      let refusal : Failure := ⟨path, .timeout engine.limits.timeoutSecs⟩
      ⟨.error refusal, scope, meter.tick, [⟨.refuse refusal, meter.tick⟩]⟩ := by
  simp only [startStep, beginStep, bind, andThen, seconds, htime, if_true]
  rfl

theorem startStep_of_spent (htime : engine.limits.timeIsUp (meter.clock 0) = false)
    (hbudget : engine.limits.maxSteps ≤ meter.stats.stepsExecuted) :
    engine.startStep s path depth scope meter =
      let refusal : Failure := ⟨path, .stepBudget engine.limits.maxSteps⟩
      ⟨.error refusal, scope, meter.tick, [⟨.refuse refusal, meter.tick⟩]⟩ := by
  have hspent : engine.limits.maxSteps ≤ meter.tick.stats.stepsExecuted := hbudget
  simp only [startStep, beginStep, bind, andThen, seconds, Exec.meter, htime, hspent, Bool.false_eq_true, if_false,
    if_true]
  rfl

theorem startStep_of_budget (htime : engine.limits.timeIsUp (meter.clock 0) = false)
    (hbudget : meter.stats.stepsExecuted < engine.limits.maxSteps) :
    engine.startStep s path depth scope meter =
      ⟨.ok (), scope, meter.tick.record s.kind,
        [⟨.tell (.stepStarted path s.kind s.describe depth), meter.tick.record s.kind⟩]⟩ := by
  have hleft : ¬ engine.limits.maxSteps ≤ meter.tick.stats.stepsExecuted := Nat.not_le.mpr hbudget
  simp only [startStep, beginStep, bind, andThen, seconds, Exec.meter, htime, hleft, Bool.false_eq_true, if_false]
  rfl

/-- A step is refused, or it is counted and starts. -/
theorem startStep_cases (meter : Meter) :
    (∃ error, engine.limits.Refuses meter.tick error ∧
      engine.startStep s path depth scope meter =
        ⟨.error ⟨path, error⟩, scope, meter.tick, [⟨.refuse ⟨path, error⟩, meter.tick⟩]⟩) ∨
    (meter.tick.stats.stepsExecuted < engine.limits.maxSteps ∧
      engine.startStep s path depth scope meter =
        ⟨.ok (), scope, meter.tick.record s.kind,
          [⟨.tell (.stepStarted path s.kind s.describe depth), meter.tick.record s.kind⟩]⟩) := by
  cases htime : engine.limits.timeIsUp (meter.clock 0) with
  | true => exact .inl ⟨.timeout engine.limits.timeoutSecs, rfl, startStep_of_late engine path depth s scope htime⟩
  | false =>
    by_cases hbudget : engine.limits.maxSteps ≤ meter.stats.stepsExecuted
    · have hrefused := startStep_of_spent engine path depth s scope htime hbudget
      exact .inl ⟨.stepBudget engine.limits.maxSteps, ⟨rfl, hbudget⟩, hrefused⟩
    · have hleft := Nat.lt_of_not_le hbudget
      exact .inr ⟨hleft, startStep_of_budget engine path depth s scope htime hleft⟩

end

/-- An execution that does nothing but calling an ability, if it does that. -/
def CallsOnce (x : Exec Value) : Prop :=
  ∀ scope meter, ((x scope meter).meter = meter ∧ (x scope meter).log = []) ∨
    ∃ call, (x scope meter).meter = meter.remember call ∧
      (x scope meter).log = [⟨.call call, meter.remember call⟩]

theorem callsOnce_call (name : String) (input : Value) : CallsOnce (engine.call path name input) := by
  intro scope meter
  rw [call]
  cases engine.abilities.ability? name with
  | none => exact .inl ⟨rfl, rfl⟩
  | some ability => exact .inr ⟨⟨name, input⟩, rfl, rfl⟩

theorem growsAt_startStep {depth : Nat} (hdepth : depth ≤ engine.limits.maxDepth) (s : Step) :
    (engine.startStep s path depth).GrowsAt engine.limits path := by
  intro scope meter
  have htick : Grows engine.limits path meter [] meter.tick := .tick path meter
  rcases startStep_cases engine path depth s scope meter with ⟨error, hrefuses, heq⟩ | ⟨hbudget, heq⟩
  · rw [heq]
    exact htick.append (.refuse path hrefuses)
  · rw [heq]
    exact htick.append (.start path meter.tick s.kind s.describe hdepth hbudget)

theorem growsAt_endStep (s : Step) (outcome : Except Failure Value) :
    (endStep s path outcome).GrowsAt engine.limits path := by
  have law := growsAt_composes engine.limits path
  cases outcome with
  | ok v =>
    refine law.bind ?_ fun _ => law.bind ?_ fun _ => law.bind ?_ fun _ => law.pure v
    · cases s.output <;> exact fun _ meter => .nil path meter
    · exact fun scope meter => .observe path meter scope.size
    · exact growsAt_emit rfl fun _ h => (Option.some.inj h).symm
  | error failure =>
    rw [endStep]
    split
    · exact law.bind (growsAt_emit rfl fun _ h => (Option.some.inj h).symm) fun _ => growsAt_raise failure
    · exact growsAt_raise failure

end Engine

namespace Job

variable {α β : Type} {limits : Limits} {path inner : Path}

/-- Whenever it is polled, the meter and the log grow as they may at a path. -/
def GrowsAt (limits : Limits) (path : Path) (x : Job α) : Prop :=
  ∀ scope meter, (x scope meter).Each (Grows limits path) meter

theorem grows_accrues (limits : Limits) (path : Path) : Progress.Accrues (Grows limits path) := ⟨.nil path, .append⟩

theorem growsAt_ofExec {x : Exec α} (h : x.GrowsAt limits path) : (ofExec x).GrowsAt limits path :=
  fun scope meter => .ended _ (h scope meter)

/-- What a job grows the execution grows that it comes to. -/
theorem GrowsAt.exec {waits : Prop} {x : Job α} (h : x.GrowsAt limits path) {y : Exec α} (hy : x.Realizes waits y) :
    y.GrowsAt limits path := by
  intro scope meter
  rw [← hy.finish]
  exact (h scope meter).finish (grows_accrues limits path)

theorem growsAt_bind {x : Job α} {next : α → Job β} (hx : x.GrowsAt limits path)
    (hnext : ∀ a, (next a).GrowsAt limits path) : (x >>= next).GrowsAt limits path := by
  intro scope meter
  refine (hx scope meter).andThen (grows_accrues limits path) fun ended meter => ?_
  split
  · exact .ended _ (.nil path meter)
  · exact hnext _ _ meter

theorem growsAt_composes (limits : Limits) (path : Path) : Composes (GrowsAt limits path) where
  pure a := growsAt_ofExec ((Exec.growsAt_composes limits path).pure a)
  raise failure _ := growsAt_ofExec (Exec.growsAt_raise failure)
  scope := growsAt_ofExec (Exec.growsAt_composes limits path).scope
  bind := growsAt_bind

theorem GrowsAt.inside {x : Job α} (h : x.GrowsAt limits inner) (hinner : path <+: inner) : x.GrowsAt limits path :=
  fun scope meter => (h scope meter).mono fun _ _ _ hgrows => hgrows.inside hinner

theorem GrowsAt.ending {x : Job α} (h : x.GrowsAt limits path)
    (f : Except Failure α → Scope → Except Failure β × Scope) : (x.ending f).GrowsAt limits path :=
  fun scope meter => (h scope meter).map _

theorem GrowsAt.within {x : Job α} (h : x.GrowsAt limits path) (inner : Scope) : (x.within inner).GrowsAt limits path :=
  fun _ meter => h.ending _ inner meter

end Job

namespace Runtime

open Job

variable (runtime : Runtime) (path : Path)

theorem growsAt_supervise {depth : Nat} (hdepth : depth ≤ runtime.limits.maxDepth) (s : Step) {body : LocatedJob}
    (h : (body path depth).GrowsAt runtime.limits path) :
    (runtime.supervise s body path depth).GrowsAt runtime.limits path := by
  refine growsAt_bind (growsAt_ofExec (Engine.growsAt_startStep runtime.admission path hdepth s)) fun _ => ?_
  exact growsAt_bind (h.ending _) fun outcome =>
    growsAt_ofExec (Engine.growsAt_endStep runtime.admission path s outcome)

/-- Waiting for an answer does nothing. -/
theorem growsAt_await (name : String) (reply : Reply) : (await path name reply).GrowsAt runtime.limits path := by
  induction reply with
  | answer result => exact growsAt_ofExec fun _ meter => .nil path meter
  | pending later ih => exact fun scope meter => .waiting (.nil path meter) fun next => ih next.calls scope next

/-- The call of a resolved input fails for an ordinary reason before the service is called, or calls it. -/
theorem lift_call_cases {result : Except RunError Value} (hresult : Ordinary result) (name : String) (scope : Scope)
    (meter : Meter) :
    (∃ error, error.isFatal = false ∧
      (ofExec (.lift path result) >>= runtime.call path name) scope meter =
        .ended (.error ⟨path, error⟩, scope) meter []) ∨
    ∃ made reply, (ofExec (.lift path result) >>= runtime.call path name) scope meter =
      (await path name reply scope (meter.remember made)).after [⟨.call made, meter.remember made⟩] := by
  cases result with
  | error error => exact .inl ⟨error, hresult error rfl, rfl⟩
  | ok input =>
    rw [ofExec_bind_of_ok rfl]
    cases hservice : runtime.services.service? name with
    | none =>
      refine .inl ⟨.unknownAbility name, rfl, ?_⟩
      rw [call, hservice]
      rfl
    | some service =>
      refine .inr ⟨⟨name, input⟩, service meter.calls input, ?_⟩
      exact (congrArg (Progress.after []) (call_of_some runtime hservice path input scope meter)).trans
        (Progress.after_after [] _ _)

/-- A step that calls a service fails for an ordinary reason before it does, or calls it right away. -/
theorem runAbility_cases (depth : Nat) (name : String) (input : Value) (scope : Scope) (meter : Meter) :
    (∃ error, error.isFatal = false ∧
      runtime.runAbility name input path depth scope meter = .ended (.error ⟨path, error⟩, scope) meter []) ∨
    ∃ made reply, runtime.runAbility name input path depth scope meter =
      (await path name reply scope (meter.remember made)).after [⟨.call made, meter.remember made⟩] := by
  have hread : runtime.runAbility name input path depth scope meter =
      ((ofExec (.lift path (input.resolve scope)) >>= runtime.call path name) scope meter).after [] := rfl
  rw [hread]
  rcases lift_call_cases runtime path (input.resolve_ordinary scope) name scope meter with
    ⟨error, hordinary, heq⟩ | ⟨made, reply, heq⟩
  · exact .inl ⟨error, hordinary, by rw [heq]; rfl⟩
  · exact .inr ⟨made, reply, by rw [heq, Progress.after_after]; rfl⟩

theorem growsAt_supervise_ability {depth : Nat} (hdepth : depth ≤ runtime.limits.maxDepth) (name : String)
    (input : Value) (output : Option String) :
    (runtime.supervise (.ability name input output) (runtime.runAbility name input) path depth).GrowsAt
      runtime.limits path := by
  intro scope meter
  let step : Step := .ability name input output
  have law := grows_accrues runtime.limits path
  have htick : Grows runtime.limits path meter [] meter.tick := .tick path meter
  rcases Engine.startStep_cases runtime.admission path depth step scope meter with
    ⟨error, hrefuses, heq⟩ | ⟨hbudget, heq⟩
  · rw [supervise_of_refused runtime _ heq rfl]
    exact .ended _ (htick.append (.refuse path hrefuses))
  · rw [supervise_of_begun runtime _ heq rfl]
    have hend (outcome : Except Failure Value) :
        (ofExec (Engine.endStep step path outcome)).GrowsAt runtime.limits path :=
      growsAt_ofExec (Engine.growsAt_endStep runtime.admission path step outcome)
    -- A call is paid for by the start of its own step, so both grow together.
    rcases runAbility_cases runtime path depth name input scope (meter.tick.record .ability) with
      ⟨error, -, hbody⟩ | ⟨made, reply, hbody⟩
    · have hstart := Grows.start path meter.tick .ability step.describe hdepth hbudget
      simp only [step, Step.kind, hbody, Progress.andThen, Progress.after_after]
      exact (hend _ scope _).after law (htick.append hstart)
    · have hcall := Grows.startCall path meter.tick step.describe made hdepth hbudget
      simp only [step, Step.kind, hbody, Progress.andThen_after, Progress.after_after]
      refine Progress.Each.after law (htick.append hcall) ?_
      exact (growsAt_await runtime path name reply scope _).andThen law fun ended meter => hend _ _ meter

/-- A list of steps grows as its steps do, which run within the depth that is allowed. -/
theorem growsAt_runList (depth : Nat) {steps : List LocatedJob}
    (h : depth ≤ runtime.limits.maxDepth → ∀ s ∈ steps, ∀ i,
      (s (path.index i) depth).GrowsAt runtime.limits (path.index i)) :
    (runtime.runList steps path depth).GrowsAt runtime.limits path := by
  refine composes_runList runtime (growsAt_composes _ path) path depth ?_ fun hdepth s hs i => ?_
  · exact growsAt_ofExec fun _ meter => .refuse path rfl
  · exact (h hdepth s hs i).inside (List.prefix_append _ _)

/-- Branches beside each other grow the meter and the log in turns. -/
theorem grows_branchesFrom (depth : Nat) (scope : Scope) {branches : List LocatedJob}
    (h : ∀ branch ∈ branches, ∀ i, (branch (path.index i) depth).GrowsAt runtime.limits (path.index i)) (i : Nat)
    (meter : Meter) :
    (branchesFrom path depth scope i branches meter).Each (Grows runtime.limits path) meter := by
  induction branches generalizing i meter with
  | nil => exact .ended [] (.nil path meter)
  | cons branch rest ih =>
    have hfirst := (h branch List.mem_cons_self i).inside (List.prefix_append _ _) scope meter
    have hothers := ih (fun b hb => h b (List.mem_cons_of_mem _ hb)) (i + 1)
    exact (hfirst.beside (grows_accrues _ path) (hothers _)).map _

theorem growsAt_runParallel (depth : Nat) (outputs : List (Option String)) {branches : List LocatedJob}
    (h : depth + 1 ≤ runtime.limits.maxDepth → ∀ branch ∈ branches, ∀ i,
      (branch ((path.key .steps).index i) (depth + 1)).GrowsAt runtime.limits ((path.key .steps).index i)) :
    (runtime.runParallel outputs branches path depth).GrowsAt runtime.limits path := by
  have law := growsAt_composes runtime.limits (path.key .steps)
  suffices hlist : (runtime.runParallel outputs branches path depth).GrowsAt runtime.limits (path.key .steps) from
    hlist.inside (List.prefix_append _ _)
  rw [runParallel, Engine.checkDepth]
  split
  · rw [refuse_bind]
    exact growsAt_ofExec fun _ meter => .refuse (path.key .steps) rfl
  next hd =>
    refine law.bind (law.pure ()) fun _ => law.bind (fun scope meter => ?_) fun outcomes => growsAt_ofExec ?_
    · exact (grows_branchesFrom runtime (path.key .steps) (depth + 1) scope (h (Nat.not_lt.mp hd)) 0 meter).map _
    · refine Exec.growsAt_bind (fun _ meter => .nil _ meter) fun _ => ?_
      split
      · exact Exec.growsAt_raise _
      · exact (Exec.growsAt_composes _ _).pure _

theorem growsAt_recovering {attempt : Job Value} {recovery : Option (Job Value)}
    (hattempt : attempt.GrowsAt runtime.limits path)
    (hrecovery : ∀ x, recovery = some x → x.GrowsAt runtime.limits path) :
    (recovering path attempt recovery).GrowsAt runtime.limits path := by
  have law := growsAt_composes runtime.limits path
  have htried : attempt.transactional.GrowsAt runtime.limits path := fun scope => hattempt.ending _ scope
  refine growsAt_bind (htried.ending _) fun outcome => ?_
  split
  · exact law.pure _
  · split
    · exact growsAt_ofExec (Exec.growsAt_raise _)
    next recovery =>
      split
      · exact growsAt_ofExec (Exec.growsAt_raise _)
      · refine growsAt_bind (growsAt_ofExec ?_) fun _ scope => ?_
        · exact Exec.growsAt_emit rfl fun _ h => (Option.some.inj h).symm
        exact (hrecovery recovery rfl).ending _ _

theorem growsAt_ensuring {x always : Job Value} (hx : x.GrowsAt runtime.limits path)
    (halways : always.GrowsAt runtime.limits path) : (ensuring x always).GrowsAt runtime.limits path := by
  have law := growsAt_composes runtime.limits path
  refine law.bind (hx.ending _) fun outcome => ?_
  split
  · split
    · exact growsAt_ofExec (Exec.growsAt_raise _)
    · exact law.bind halways fun _ => growsAt_ofExec (Exec.growsAt_raise _)
  · exact law.bind halways fun _ => law.pure _

/-- A list below a path grows as the steps of it do. -/
theorem growsAt_runSteps (depth : Nat) {inner : Path} (hinner : path <+: inner) {steps : List Step}
    (h : ∀ s ∈ steps, ∀ path depth, depth ≤ runtime.limits.maxDepth →
      (runtime.runStep s path depth).GrowsAt runtime.limits path) :
    (runtime.runList (runtime.runSteps steps) inner depth).GrowsAt runtime.limits path := by
  refine (growsAt_runList runtime inner depth fun hdepth => ?_).inside hinner
  exact forall_mem_runSteps fun s hs i => h s hs (inner.index i) depth hdepth

/-- Whatever a step does, the meter and the log grow as they may at its path. -/
theorem growsAt_runStep (s : Step) : ∀ path depth, depth ≤ runtime.limits.maxDepth →
    (runtime.runStep s path depth).GrowsAt runtime.limits path := by
  induction s using Step.induction with
  | ability name input output =>
    intro path depth hdepth
    rw [runStep]
    exact growsAt_supervise_ability runtime path hdepth name input output
  | transform operation input params output =>
    intro path depth hdepth
    rw [runStep]
    refine growsAt_supervise runtime path hdepth _ ?_
    refine composes_runTransform runtime (growsAt_composes _ path) path depth operation input params fun _ _ => ?_
    exact growsAt_ofExec fun _ meter => .nil path meter
  | conditional condition whenTrue whenFalse output htrue hfalse =>
    intro path depth hdepth
    rw [runStep]
    refine growsAt_supervise runtime path hdepth _ ?_
    refine composes_runConditional runtime (growsAt_composes _ path) path depth condition ?_ ?_
    · exact growsAt_runSteps runtime path (depth + 1) (List.prefix_append _ _) htrue
    · exact growsAt_runSteps runtime path (depth + 1) (List.prefix_append _ _) hfalse
  | loop input body itemVar indexVar collect output hbody =>
    intro path depth hdepth
    rw [runStep]
    refine growsAt_supervise runtime path hdepth _ ?_
    refine composes_runLoop runtime (growsAt_composes _ path) path depth input itemVar indexVar collect ?_
    exact (growsAt_runSteps runtime path (depth + 1) (List.prefix_append _ _) hbody).within
  | parallel branches output hbranches =>
    intro path depth hdepth
    rw [runStep]
    refine growsAt_supervise runtime path hdepth _ ?_
    refine growsAt_runParallel runtime path depth _ fun hdeep => ?_
    exact forall_mem_runSteps fun s hs i => hbranches s hs _ _ hdeep
  | tryCatch attempt recovery always output hattempt hrecovery halways =>
    intro path depth hdepth
    rw [runStep]
    refine growsAt_supervise runtime path hdepth _ ?_
    refine growsAt_ensuring runtime path (growsAt_recovering runtime path ?_ ?_) ?_
    · exact growsAt_runSteps runtime path (depth + 1) (List.prefix_append _ _) hattempt
    · refine forall_eq_some_runOption fun steps hsome => ?_
      exact growsAt_runSteps runtime path (depth + 1) (List.prefix_append _ _) (hrecovery steps hsome)
    · refine composes_runUnlessEmpty runtime (growsAt_composes _ path) _ _ ?_
      exact growsAt_runSteps runtime path (depth + 1) (List.prefix_append _ _) halways
  | subPipeline pipeline inputs output hsteps =>
    intro path depth hdepth
    obtain ⟨name, description, steps, result, limits⟩ := pipeline
    rw [runStep]
    refine growsAt_supervise runtime path hdepth _ ?_
    refine composes_runNested runtime (growsAt_composes _ path) path depth result inputs ?_
    refine (growsAt_runSteps runtime path (depth + 1) ?_ hsteps).within
    exact (List.prefix_append _ _).trans (List.prefix_append _ _)

section

variable (pipeline : Pipeline) (context : Value) (clock : Clock)

/-- The steps of a pipeline grow the meter and the log as they may. -/
theorem growsAt_runTop :
    Grows runtime.limits Path.top ((Meter.fresh clock).observe (Scope.ofValue context).size)
      (runtime.runTop pipeline context clock).log (runtime.runTop pipeline context clock).meter := by
  have hsteps := growsAt_runSteps runtime Path.top 0 List.prefix_rfl fun s (_ : s ∈ pipeline.steps) =>
    growsAt_runStep runtime s
  exact (hsteps _ _).finish (grows_accrues _ _)

/-- The log of a whole run grows as it may, from a meter that shows nothing to what the run reports. -/
theorem grows_runPipeline :
    Grows runtime.limits Path.top (Meter.fresh clock) (runtime.runPipeline pipeline context clock).log
      (runtime.runTop pipeline context clock).meter := by
  rw [runPipeline, Report.ofRan_log]
  have hstarted : Grows runtime.limits Path.top (Meter.fresh clock)
      [⟨.tell (.pipelineStarted (pipeline.name.getD Engine.anonymous) pipeline.totalSteps), .fresh clock⟩]
      (.fresh clock) :=
    .tell (.fresh clock) rfl fun _ hplace => by cases hplace
  have hsteps := growsAt_runTop runtime pipeline context clock
  refine (hstarted.append ((Grows.observe _ _ _).append hsteps)).append ?_
  exact .tell _ rfl fun _ hplace => by cases hplace

end

end Runtime

namespace Engine

variable (engine : Engine)

theorem growsAt_runStep (s : Step) (path : Path) (depth : Nat) (hdepth : depth ≤ engine.limits.maxDepth) :
    (engine.runStep s path depth).GrowsAt engine.limits path :=
  (Runtime.growsAt_runStep engine.runtime s path depth hdepth).exec (runStep_realized engine s path depth)

theorem growsAt_runSteps (steps : List Step) (path : Path) (depth : Nat) :
    (engine.runList (engine.runSteps steps) path depth).GrowsAt engine.limits path := by
  have h := Runtime.growsAt_runSteps engine.runtime path depth List.prefix_rfl fun s (_ : s ∈ steps) =>
    Runtime.growsAt_runStep engine.runtime s
  exact h.exec (runSteps_realized engine steps path depth)

variable (pipeline : Pipeline) (context : Value) (clock : Clock)

theorem growsAt_runTop :
    Grows engine.limits Path.top ((Meter.fresh clock).observe (Scope.ofValue context).size)
      (engine.runTop pipeline context clock).log (engine.runTop pipeline context clock).meter :=
  growsAt_runSteps engine pipeline.steps Path.top 0 _ _

theorem grows_runPipeline :
    Grows engine.limits Path.top (Meter.fresh clock) (engine.runPipeline pipeline context clock).log
      (engine.runTop pipeline context clock).meter := by
  have h := Runtime.grows_runPipeline engine.runtime pipeline context clock
  rwa [runPipeline_runtime, runTop_runtime] at h

end Engine

end Pipewright
