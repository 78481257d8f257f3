import Pipewright.Proofs.RelocatedSteps

/-!
# Rounds of a loop

Every round of a loop starts in a copy of the scope that the loop found, so that no round knows of the ones before it.
A loop over the items of two lists is the loop over the first one and then the loop over the second one, as long as no
limit is met; and only the items matter, not what they were found under.
-/
namespace Pipewright

/-! ### Executions in a row -/

namespace Exec

variable {α β γ : Type}

theorem bind_assoc (x : Exec α) (f : α → Exec β) (g : β → Exec γ) : x >>= f >>= g = x >>= fun a => f a >>= g := by
  funext scope meter
  cases hx : (x scope meter).outcome with
  | error failure =>
    have hfirst : ((x >>= f) scope meter).outcome = .error failure := by rw [bind_of_error hx]
    rw [bind_of_error hfirst, bind_of_error hx, bind_of_error hx]
  | ok a =>
    have hfirst : (x >>= f) scope meter = _ := bind_of_ok hx
    rw [bind_of_ok hx]
    cases hf : (f a (x scope meter).scope (x scope meter).meter).outcome with
    | error failure =>
      have hboth : ((x >>= f) scope meter).outcome = .error failure := by rw [hfirst, ← hf]
      rw [bind_of_error hboth, hfirst, bind_of_error hf]
    | ok b =>
      have hboth : ((x >>= f) scope meter).outcome = .ok b := by rw [hfirst, ← hf]
      rw [bind_of_ok hboth, hfirst, bind_of_ok hf]
      simp only [List.append_assoc]

/-- What becomes of a value at the end changes nothing else. -/
theorem bind_pure_eq (x : Exec α) (f : α → β) (scope : Scope) (meter : Meter) :
    (x >>= fun a => pure (f a)) scope meter =
      { x scope meter with outcome := (x scope meter).outcome.map f } := by
  cases h : (x scope meter).outcome with
  | error failure => exact bind_of_error h
  | ok a =>
    rw [bind_of_ok h]
    exact congrArg (Ran.mk _ _ _) (List.append_nil _)

theorem bind_pure (x : Exec α) : (x >>= pure) = x := by
  funext scope meter
  have houtcome : (x scope meter).outcome.map id = (x scope meter).outcome := by
    cases (x scope meter).outcome <;> rfl
  exact (bind_pure_eq x id scope meter).trans (by rw [houtcome])

/-- Executions compose as computations do. -/
instance : LawfulMonad Exec := LawfulMonad.mk' Exec bind_pure (fun _ _ => rfl) bind_assoc

end Exec

/-! ### Going on later -/

/-- A meter at which a run goes on later than at another one: no less has been counted, and the clock has been read
some more times, in time. -/
structure Meter.Later (limits : Limits) (start meter : Meter) : Prop where
  steps : start.stats.stepsExecuted ≤ meter.stats.stepsExecuted
  clock : ∃ readings, (∀ i, meter.clock i = start.clock (i + readings)) ∧
    ∀ i, i < readings → limits.timeIsUp (start.clock i) = false

namespace Meter.Later

variable {limits : Limits} {start meter : Meter}

theorem refl (limits : Limits) (meter : Meter) : Later limits meter meter :=
  ⟨Nat.le_refl _, 0, fun _ => rfl, nofun⟩

/-- What the clock shows next has been in time from the start on. -/
theorem inTime_upTo {readings : Nat} (hclock : ∀ i, meter.clock i = start.clock (i + readings))
    (hbefore : ∀ i, i < readings → limits.timeIsUp (start.clock i) = false)
    (htime : limits.timeIsUp (meter.clock 0) = false) {i : Nat} (hi : i ≤ readings) :
    limits.timeIsUp (start.clock i) = false := by
  rcases Nat.lt_or_eq_of_le hi with hlt | rfl
  · exact hbefore i hlt
  · rwa [hclock 0, Nat.zero_add] at htime

theorem inTime (h : Later limits start meter) (htime : limits.timeIsUp (meter.clock 0) = false) :
    limits.timeIsUp (start.clock 0) = false := by
  obtain ⟨readings, hclock, hbefore⟩ := h.clock
  exact inTime_upTo hclock hbefore htime (Nat.zero_le readings)

theorem tick (h : Later limits start meter) (htime : limits.timeIsUp (meter.clock 0) = false) :
    Later limits start meter.tick := by
  obtain ⟨readings, hclock, hbefore⟩ := h.clock
  refine ⟨h.steps, readings + 1, fun i => ?_, fun i hi => ?_⟩
  · have hlater := hclock (i + 1)
    rwa [Nat.add_right_comm] at hlater
  · exact inTime_upTo hclock hbefore htime (Nat.le_of_lt_succ hi)

/-- Both may go on. -/
theorem tick_both (h : Later limits start meter) (htime : limits.timeIsUp (meter.clock 0) = false) :
    Later limits start.tick meter.tick := by
  obtain ⟨readings, hclock, hbefore⟩ := h.clock
  refine ⟨h.steps, readings, fun i => ?_, fun i hi => inTime_upTo hclock hbefore htime hi⟩
  have hlater := hclock (i + 1)
  rwa [Nat.add_right_comm] at hlater

end Meter.Later

namespace Relocation

/-- A run that goes on from a meter, with itself: what its meter shows from then on is later, as long as no limit
refuses anything. -/
def since (limits : Limits) (start : Meter) : Relocation where
  place := []
  levels := 0
  limits := limits
  alone := limits
  lenient := True
  meters meter meter' := meter = meter' ∧ start.Later limits meter
  depth := rfl
  inTime := by
    rintro _ _ ⟨rfl, -⟩ htime
    exact htime
  budget := by
    rintro _ _ ⟨rfl, -⟩ hbudget
    exact hbudget
  late _ h := absurd trivial h
  spent _ h := absurd trivial h
  tick := by
    rintro _ _ ⟨rfl, hlater⟩ htime
    exact ⟨rfl, hlater.tick (htime trivial)⟩
  record kind h := ⟨congrArg (Meter.record · kind) h.1, Nat.le_succ_of_le h.2.steps, h.2.clock⟩
  observe bytes h := ⟨congrArg (Meter.observe · bytes) h.1, h.2.steps, h.2.clock⟩
  remember call h := ⟨congrArg (Meter.remember · call) h.1, h.2.steps, h.2.clock⟩

/-- A run that goes on from a meter, with the same from an earlier one: there is more left of the limits then. -/
def later (limits : Limits) : Relocation where
  place := []
  levels := 0
  limits := limits
  alone := limits
  lenient := True
  meters meter meter' := meter'.Later limits meter
  depth := rfl
  inTime h := h.inTime
  budget h := Nat.lt_of_le_of_lt h.steps
  late _ h := absurd trivial h
  spent _ h := absurd trivial h
  tick h htime := h.tick_both (htime trivial)
  record _ h := ⟨Nat.succ_le_succ h.steps, h.clock⟩
  observe _ h := ⟨h.steps, h.clock⟩
  remember _ h := ⟨h.steps, h.clock⟩

end Relocation

namespace Engine

open Exec

section

variable (body : Exec Value) (itemVar : String) (indexVar collect : Option String)

/-- Rounds for the items of two lists are those for the first one and then those for the second one. -/
theorem iterate_append (items more : List (Value × Value)) :
    iterate body itemVar indexVar collect (items ++ more) = do
      let results ← iterate body itemVar indexVar collect items
      let further ← iterate body itemVar indexVar collect more
      return results ++ further := by
  induction items with
  | nil => simp [iterate]
  | cons item rest ih => simp [iterate, ih]

/-- Without a variable for it, it does not matter what an item was found under. -/
theorem iterate_congr {items other : List (Value × Value)} (h : items.map Prod.snd = other.map Prod.snd) :
    iterate body itemVar none collect items = iterate body itemVar none collect other := by
  induction items generalizing other with
  | nil => rw [List.map_eq_nil_iff.mp h.symm]
  | cons item rest ih =>
    obtain ⟨item', rest', rfl, hitem, hrest⟩ := List.map_eq_cons_iff.mp h.symm
    rw [iterate, iterate, ih hrest.symm, ← hitem]

end

section

variable (engine : Engine) (body : List Step) (itemVar : String) (collect output : Option String) (path : Path)
  (depth : Nat) (scope : Scope) (meter : Meter)

/-- The rounds of a loop for some items, without a variable for what they are found under. -/
def rounds (items : List Value) : Exec (List Value) :=
  iterate (engine.runList (engine.runSteps body) (path.key .steps) (depth + 1)) itemVar none collect
    (items.map fun item => (.null, item))

theorem leavesScope_rounds (items : List Value) : (engine.rounds body itemVar collect path depth items).LeavesScope :=
  composes_iterate leavesScope_composes (fun _ _ _ => rfl) itemVar none collect _

theorem halts_rounds (items : List Value) : (engine.rounds body itemVar collect path depth items).Halts := by
  refine composes_iterate halts_composes (halts_within ?_) itemVar none collect _
  exact halts_runSteps engine _ _ fun s _ => halts_runStep engine s

/-- Rounds that are executed in place match themselves from another meter. -/
theorem relocates_rounds (hsteady : engine.abilities.Steady) (items : List Value) {r : Relocation}
    (hplace : r.place = []) (hlevels : r.levels = 0) (hlimits : r.limits = engine.limits)
    (halone : r.alone = engine.limits) :
    Relocates r path.length (engine.rounds body itemVar collect path depth items)
      (engine.rounds body itemVar collect path depth items) := by
  have law := relocates_carriesAt r path.length path
  refine carries_iterate law _ _ (fun inner => relocates_within ?_ inner) itemVar none collect _
  have hmovable : ∀ s ∈ body, engine.Movable r s := fun s _ => relocates_runStep engine r hsteady s (.inl hplace)
  have hlist := relocates_runSteps engine r (path.key .steps) (depth + 1) hmovable
  rw [hplace, hlevels, hlimits, halone] at hlist
  exact hlist.mono (by simp [Path.key])

variable {engine body itemVar collect output path depth scope meter} {xs ys : List Value}

theorem rounds_append : engine.rounds body itemVar collect path depth (xs ++ ys) = do
    let results ← engine.rounds body itemVar collect path depth xs
    let further ← engine.rounds body itemVar collect path depth ys
    return results ++ further := by
  rw [rounds, List.map_append, iterate_append]
  rfl

/-- The first round that fails is the last one. -/
theorem rounds_append_of_error {failure : Failure}
    (h : (engine.rounds body itemVar collect path depth xs scope meter).outcome = .error failure) :
    (engine.rounds body itemVar collect path depth (xs ++ ys) scope meter).outcome = .error failure := by
  rw [rounds_append, bind_of_error h]

/-- If no limit refuses anything, then rounds come to the same after others as alone. -/
theorem rounds_append_of_ok (hsteady : engine.abilities.Steady) {results : List Value}
    (h : (engine.rounds body itemVar collect path depth xs scope meter).outcome = .ok results)
    (hordinary : ∀ failure, (engine.rounds body itemVar collect path depth (xs ++ ys) scope meter).outcome =
      .error failure → failure.error.isFatal = false) :
    (engine.rounds body itemVar collect path depth (xs ++ ys) scope meter).outcome =
      (engine.rounds body itemVar collect path depth ys scope meter).outcome.map (results ++ ·) := by
  let first := engine.rounds body itemVar collect path depth xs scope meter
  let second := engine.rounds body itemVar collect path depth ys scope first.meter
  have hscope : first.scope = scope := leavesScope_rounds engine body itemVar collect path depth xs scope meter
  have hboth : engine.rounds body itemVar collect path depth (xs ++ ys) scope meter =
      ⟨second.outcome.map (results ++ ·), second.scope, second.meter, first.log ++ second.log⟩ := by
    rw [rounds_append, bind_of_ok h, hscope, bind_pure_eq]
  have hnone : refusals (first.log ++ second.log) = [] := by
    have hhalts := halts_rounds engine body itemVar collect path depth (xs ++ ys) scope meter
    have hlog := hhalts.refusals_eq_nil hordinary
    rwa [hboth] at hlog
  obtain ⟨hfirst, hsecond⟩ := List.append_eq_nil_iff.mp ((refusals_append _ _).symm.trans hnone)
  have hlater : meter.Later engine.limits first.meter := by
    have hsame := relocates_rounds engine body itemVar collect path depth hsteady xs
      (r := .since engine.limits meter) rfl rfl rfl rfl scope meter meter ⟨rfl, .refl _ _⟩
    rcases hsame with ⟨-, hrefused⟩ | hmoved
    · exact absurd hfirst hrefused
    · exact hmoved.meter.2
  have hmatches := relocates_rounds engine body itemVar collect path depth hsteady ys
    (r := .later engine.limits) rfl rfl rfl rfl scope first.meter meter hlater
  rcases hmatches with ⟨-, hrefused⟩ | hmoved
  · exact absurd hsecond hrefused
  · have houtcome := hmoved.outcome
    rw [hboth] at hordinary ⊢
    cases halone : (engine.rounds body itemVar collect path depth ys scope meter).outcome with
    | ok further =>
      rw [halone] at houtcome
      exact congrArg (Except.map _) houtcome
    | error failure =>
      rw [halone] at houtcome
      have hfailed : second.outcome.map (results ++ ·) = .error (failure.moved [] engine.limits) :=
        congrArg (Except.map _) houtcome
      have hfatal : failure.error.isFatal = false := by
        rw [← RunError.isFatal_quoting engine.limits]
        exact hordinary _ hfailed
      exact hfailed.trans (congrArg Except.error (Failure.moved_of_ordinary [] engine.limits hfatal))

theorem loopItems_arr (items : List Value) :
    ∃ indexed, loopItems (.arr items) = .ok indexed ∧ indexed.map Prod.snd = items := by
  refine ⟨_, rfl, ?_⟩
  rw [List.map_map]
  exact List.zipIdx_map_fst 0 items

/-- A loop is its rounds for the items of its input. -/
theorem runLoop_eq_rounds {input v : Value} {items : List (Value × Value)} (hinput : input.resolve scope = .ok v)
    (hitems : loopItems v = .ok items) (hxs : items.map Prod.snd = xs) (meter : Meter) :
    engine.runLoop input (engine.runSteps body) itemVar none collect path depth scope meter =
      let ran := engine.rounds body itemVar collect path depth xs scope meter
      { ran with outcome := ran.outcome.map Value.arr } := by
  have hresolved : (input.resolve scope >>= loopItems) = .ok items := by rw [hinput, ← hitems]; rfl
  have hrounds : engine.rounds body itemVar collect path depth xs =
      iterate (engine.runList (engine.runSteps body) (path.key .steps) (depth + 1)) itemVar none collect items :=
    iterate_congr _ itemVar collect (by rw [hxs, List.map_map]; exact List.map_id xs)
  change (Exec.lift path (input.resolve scope >>= loopItems) >>= _) scope meter = _
  rw [hresolved, hrounds, ← bind_pure_eq]
  rfl

/-- A loop over an array that starts comes to the list of what its rounds come to. -/
theorem runStep_loop_outcome {input : Value} (htime : engine.limits.timeIsUp (meter.clock 0) = false)
    (hbudget : meter.stats.stepsExecuted < engine.limits.maxSteps) (hinput : input.resolve scope = .ok (.arr xs)) :
    (engine.runStep (.loop input body itemVar none collect output) path depth scope meter).outcome =
      (engine.rounds body itemVar collect path depth xs scope (meter.tick.record .loop)).outcome.map Value.arr := by
  obtain ⟨items, hitems, hvalues⟩ := loopItems_arr xs
  let step : Step := .loop input body itemVar none collect output
  have hbegun := startStep_of_budget engine path depth step scope htime hbudget
  rw [runStep, supervise_of_begun engine _ _ path depth scope meter (by rw [hbegun]), hbegun]
  rw [endStep_outcome, runLoop_eq_rounds hinput hitems hvalues]
  rfl

theorem loopItems_obj (fields : Fields Value) :
    ∃ keyed, loopItems (.obj fields) = .ok keyed ∧ keyed.map Prod.snd = fields.map Prod.snd := by
  refine ⟨_, rfl, ?_⟩
  rw [List.map_map]
  rfl

end

/-- A step that no limit ends has started in time and within the budget. -/
theorem begins_of_ordinary (engine : Engine) {s : Step} {body : Located} {path : Path} {depth : Nat} {scope : Scope}
    {meter : Meter} (h : ∀ failure, (engine.supervise s body path depth scope meter).outcome = .error failure →
      failure.error.isFatal = false) :
    engine.limits.timeIsUp (meter.clock 0) = false ∧ meter.stats.stepsExecuted < engine.limits.maxSteps := by
  have hrefused {failure : Failure} (hfatal : failure.error.isFatal)
      (hbegun : (engine.startStep s path depth scope meter).outcome = .error failure) : False := by
    have hordinary := h failure (by rw [supervise, bind_of_error hbegun])
    rw [hfatal] at hordinary
    cases hordinary
  cases htime : engine.limits.timeIsUp (meter.clock 0) with
  | true => exact (hrefused rfl (by rw [startStep_of_late engine path depth s scope htime])).elim
  | false =>
    refine ⟨rfl, Nat.lt_of_not_le fun hspent => ?_⟩
    have hbegun := startStep_of_spent engine path depth s scope htime hspent
    exact hrefused rfl (congrArg Ran.outcome hbegun)

/-- Steps of one kind and with one output that do the same when they are executed are not told apart but by how their
start describes them. -/
theorem supervise_congr (engine : Engine) (s s' : Step) (hkind : s.kind = s'.kind)
    (houtput : s.output = s'.output) {body body' : Located} {path : Path} {depth : Nat} {scope : Scope}
    (hbody : ∀ meter, body path depth scope meter = body' path depth scope meter) (meter : Meter) :
    let ran := engine.supervise s body path depth scope meter
    let ran' := engine.supervise s' body' path depth scope meter
    ran.outcome = ran'.outcome ∧ ran.scope = ran'.scope ∧ ran.meter = ran'.meter ∧ ran.log.tail = ran'.log.tail := by
  have hend : endStep s path = endStep s' path := by
    funext outcome
    cases outcome with
    | ok v => rw [endStep, endStep, hkind, houtput]
    | error failure => rfl
  cases htime : engine.limits.timeIsUp (meter.clock 0) with
  | true =>
    have hlate (s : Step) := startStep_of_late engine path depth s scope htime
    rw [supervise, supervise, bind_of_error (by rw [hlate]), bind_of_error (by rw [hlate]), hlate, hlate]
    exact ⟨rfl, rfl, rfl, rfl⟩
  | false =>
    by_cases hspent : engine.limits.maxSteps ≤ meter.stats.stepsExecuted
    · have hrefused (s : Step) := startStep_of_spent engine path depth s scope htime hspent
      rw [supervise, supervise, bind_of_error (by rw [hrefused]), bind_of_error (by rw [hrefused]), hrefused,
        hrefused]
      exact ⟨rfl, rfl, rfl, rfl⟩
    · have hbegun (s : Step) := startStep_of_budget engine path depth s scope htime (Nat.lt_of_not_le hspent)
      rw [supervise_of_begun engine s _ path depth scope meter (by rw [hbegun]),
        supervise_of_begun engine s' _ path depth scope meter (by rw [hbegun]), hbegun, hbegun, hkind, hend]
      dsimp only
      rw [hbody]
      exact ⟨rfl, rfl, rfl, rfl⟩

/-- A loop over the items of two lists fails as the loop over the first one does; or else as the loop over the second
one does; or else has the results of both, one after the other. It leaves the scope as it was, but for its output. And
it makes no difference whether the items are those of a list or of an object. -/
theorem runStep_loop_append (engine : Engine) (body : List Step) (itemVar : String) (collect output : Option String)
    (path : Path) (depth : Nat) (scope : Scope) (meter : Meter) :
    let loop (input : Value) := engine.runStep (.loop input body itemVar none collect output) path depth scope meter
    (engine.abilities.Steady → ∀ input inputXs inputYs xs ys, input.resolve scope = .ok (.arr (xs ++ ys)) →
      inputXs.resolve scope = .ok (.arr xs) → inputYs.resolve scope = .ok (.arr ys) →
      (∀ failure, (loop input).outcome = .error failure → failure.error.isFatal = false) →
      (∀ failure, (loop inputXs).outcome = .error failure → (loop input).outcome = .error failure) ∧
      (∀ v failure, (loop inputXs).outcome = .ok v → (loop inputYs).outcome = .error failure →
        (loop input).outcome = .error failure) ∧
      ∀ v w, (loop inputXs).outcome = .ok v → (loop inputYs).outcome = .ok w →
        ∃ vs ws, v = .arr vs ∧ w = .arr ws ∧ (loop input).outcome = .ok (.arr (vs ++ ws))) ∧
    (∀ input, (loop input).scope = boundScope output { loop input with scope := scope }) ∧
    ∀ input input' fields, input.resolve scope = .ok (.obj fields) →
      input'.resolve scope = .ok (.arr (fields.map Prod.snd)) →
      (loop input).outcome = (loop input').outcome ∧ (loop input).scope = (loop input').scope ∧
        (loop input).meter = (loop input').meter ∧ (loop input).log.tail = (loop input').log.tail := by
  intro loop
  refine ⟨fun hsteady input inputXs inputYs xs ys hinput hxs hys hordinary => ?_, fun input => ?_,
    fun input input' fields hobject hlist => ?_⟩
  · obtain ⟨htime, hbudget⟩ := begins_of_ordinary engine hordinary
    let start := meter.tick.record .loop
    have houtcome {input : Value} {items : List Value} (hinput : input.resolve scope = .ok (.arr items)) :
        (loop input).outcome =
          (engine.rounds body itemVar collect path depth items scope start).outcome.map Value.arr :=
      runStep_loop_outcome htime hbudget hinput
    rw [houtcome hinput] at hordinary ⊢
    rw [houtcome hxs, houtcome hys]
    have hrounds (failure : Failure)
        (h : (engine.rounds body itemVar collect path depth (xs ++ ys) scope start).outcome = .error failure) :
        failure.error.isFatal = false := by
      refine hordinary failure ?_
      rw [h]
      rfl
    cases hfirst : (engine.rounds body itemVar collect path depth xs scope start).outcome with
    | error failure =>
      rw [rounds_append_of_error hfirst]
      exact ⟨fun _ h => h, nofun, nofun⟩
    | ok vs =>
      rw [rounds_append_of_ok hsteady hfirst hrounds]
      cases engine.rounds body itemVar collect path depth ys scope start |>.outcome with
      | error failure => exact ⟨nofun, fun _ _ _ h => h, nofun⟩
      | ok ws =>
        refine ⟨nofun, nofun, fun v w hv hw => ?_⟩
        cases hv
        cases hw
        exact ⟨vs, ws, rfl, rfl, rfl⟩
  · refine supervise_scope_of_leavesScope engine _ ?_ scope meter
    exact composes_runLoop leavesScope_composes engine path depth input itemVar none collect fun _ _ _ => rfl
  · obtain ⟨items, hitems, hvalues⟩ := loopItems_obj fields
    obtain ⟨indexed, hindexed, hsame⟩ := loopItems_arr (fields.map Prod.snd)
    have hbody (meter : Meter) :
        engine.runLoop input (engine.runSteps body) itemVar none collect path depth scope meter =
          engine.runLoop input' (engine.runSteps body) itemVar none collect path depth scope meter := by
      rw [runLoop_eq_rounds hobject hitems hvalues, runLoop_eq_rounds hlist hindexed hsame]
    exact supervise_congr engine (.loop input body itemVar none collect output)
      (.loop input' body itemVar none collect output) rfl rfl hbody meter

/-- A round in the middle fails inside and is recovered from, and collects what it has written itself. -/
theorem runStep_loop_append_of_recovered :
    let echo : Ability := fun _ input => match input with
      | .null => .error (.invalidInput "nothing")
      | v => .ok v
    let engine : Engine := ⟨⟨fun _ => some echo⟩, .builtin, .standard⟩
    let attempt : List Step := [.ability "echo" (.str "$item") (some "seen")]
    let body : List Step := [.tryCatch attempt (some [.transform "count" (.arr []) [] (some "seen")]) [] none]
    let loop (input : Value) :=
      engine.runStep (.loop input body "item" none (some "seen") none) Path.top 0 .empty (.fresh .still)
    let xs : List Value := [.nat 7, .null]
    let ys : List Value := [.nat 8]
    (∃ vs ws, (loop (.arr xs)).outcome = .ok (.arr vs) ∧ (loop (.arr ys)).outcome = .ok (.arr ws) ∧
      (loop (.arr (xs ++ ys))).outcome = .ok (.arr (vs ++ ws))) ∧
    (loop (.obj [("a", .nat 7), ("b", .null)])).outcome = (loop (.arr xs)).outcome ∧
    (loop (.arr (xs ++ ys))).outcome.toOption.map Json.print = some "[7,0,8]" := by
  intro echo engine attempt body loop xs ys
  obtain ⟨happend, -, hobject⟩ :=
    runStep_loop_append engine body "item" (some "seen") none Path.top 0 .empty (.fresh .still)
  have hsteady : engine.abilities.Steady := by
    rintro name ability hability before before' input
    cases hability
    rfl
  have hwhole : (loop (.arr (xs ++ ys))).failure?.isNone := by decide +kernel
  have hgood {failure : Failure} (h : (loop (.arr (xs ++ ys))).outcome = .error failure) : False := by
    rw [Ran.failure?_of_error h] at hwhole
    cases hwhole
  obtain ⟨hfirst, hsecond, hboth⟩ :=
    happend hsteady (.arr (xs ++ ys)) (.arr xs) (.arr ys) xs ys rfl rfl rfl fun _ h => (hgood h).elim
  refine ⟨?_, (hobject (.obj [("a", .nat 7), ("b", .null)]) (.arr xs) _ rfl rfl).1, by decide +kernel⟩
  cases hxs : (loop (.arr xs)).outcome with
  | error failure => exact (hgood (hfirst failure hxs)).elim
  | ok v =>
    cases hys : (loop (.arr ys)).outcome with
    | error failure => exact (hgood (hsecond v failure hxs hys)).elim
    | ok w =>
      obtain ⟨vs, ws, rfl, rfl, happended⟩ := hboth v w hxs hys
      exact ⟨vs, ws, rfl, rfl, happended⟩

end Engine

end Pipewright
