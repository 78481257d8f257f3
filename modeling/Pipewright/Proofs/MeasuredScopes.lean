import Pipewright.Proofs.FailedRuns
import Pipewright.Proofs.NonInterference

/-!
# The peak and the scope at the end

The size of a scope is noted when a run begins and whenever a step succeeds. A failure leaves a scope that was measured,
but for two things that happen on its way. A parallel step takes over the outputs of the branches that succeeded though
another one fails; and behind a recovering list the variable of the error has the value again that it had before.
`Unmeasured` says where a failure comes from that such a thing may have happened to. In every other run, and in every
run that succeeds, the peak is no less than the size of the scope at the end.
-/
namespace Pipewright

/-! ### Sizes -/

theorem Value.sizeFields_erase_le (name : String) (fields : Fields Value) :
    sizeFields (Fields.erase name fields) ≤ sizeFields fields := by
  induction fields with
  | nil => exact Nat.le_refl _
  | cons head rest ih =>
    obtain ⟨key, v⟩ := head
    rw [Fields.erase]
    split
    · exact Nat.le_add_left _ _
    · exact Nat.add_le_add_left ih _

theorem Fields.erase_insert {α : Type} {name : String} {fields : Fields α} (h : get? name fields = none) (a : α) :
    erase name (insert name a fields) = fields := by
  induction fields with
  | nil => rw [insert, erase, if_pos rfl]
  | cons head rest ih =>
    obtain ⟨key, b⟩ := head
    by_cases hkey : key = name
    · rw [get?, if_pos hkey] at h
      cases h
    · rw [get?, if_neg hkey] at h
      rw [insert, if_neg hkey]
      split
      · rw [erase, if_pos rfl]
      · rw [erase, if_neg hkey, ih h]

namespace Scope

theorem size_remove_le (scope : Scope) (name : String) : (scope.remove name).size ≤ scope.size :=
  Value.sizeFields_erase_le name scope.vars

/-- A variable that was not there is taken away again. -/
theorem remove_set {scope : Scope} {name : String} (h : scope.get? name = none) (v : Value) :
    (scope.set name v).remove name = scope := by
  obtain ⟨vars, ordered⟩ := scope
  exact Scope.mk.injEq .. ▸ Fields.erase_insert h v

theorem ofValue_toValue (scope : Scope) : Scope.ofValue scope.toValue = scope := by
  obtain ⟨vars, ordered⟩ := scope
  exact Scope.mk.injEq .. ▸ Fields.ofList_of_ordered ordered

end Scope

/-- The peak never falls. -/
theorem Grows.memoryPeak_le {limits : Limits} {path : Path} {before after : Meter} {log : List Moment}
    (h : Grows limits path before log after) : before.stats.memoryPeak ≤ after.stats.memoryPeak := by
  induction h with
  | append _ _ hfirst hsecond => exact Nat.le_trans hfirst hsecond
  | inside _ _ ih => exact ih
  | observe => exact Nat.le_max_left _ _
  | _ => exact Nat.le_refl _

/-! ### Where a measurement may be missed -/

namespace Step

mutual

/-- Whether a failure at `place` may leave the scope that a step at `path` runs in larger than any that was measured.
It may if it comes out of a branch of a parallel step and another branch declares an output; and, where the variable of
the error may be bound (`named`), if it comes out of a recovering list or of the list that runs after that. -/
def Unmeasured : Step → Prop → Path → Path → Prop
  | .ability .., _, _, _ | .transform .., _, _, _ | .loop .., _, _, _ | .subPipeline .., _, _, _ => False
  | .conditional _ whenTrue whenFalse _, named, path, place =>
    UnmeasuredIn whenTrue named (path.key .thenSteps) 0 place ∨
      UnmeasuredIn whenFalse named (path.key .elseSteps) 0 place
  | .parallel branches _, _, path, place =>
    ∃ i j branch, (path.key .steps).index i <+: place ∧ j ≠ i ∧ branches[j]? = some branch ∧ branch.output.isSome
  | .tryCatch _ recovery always _, named, path, place =>
    path.key .catchSteps <+: place ∧ UnmeasuredBehind recovery named path place ∨
      path.key .finallySteps <+: place ∧ (∃ caught, UnmeasuredBehind recovery named path caught) ∨
      UnmeasuredIn always named (path.key .finallySteps) 0 place

/-- The same for the steps of a list from position `i` on. -/
def UnmeasuredIn : List Step → Prop → Path → Nat → Path → Prop
  | [], _, _, _, _ => False
  | s :: rest, named, list, i, place =>
    s.Unmeasured named (list.index i) place ∨ UnmeasuredIn rest named list (i + 1) place

/-- The same for the scope behind the recovering list of a step. In that list the variable of the error is bound. -/
def UnmeasuredBehind : Option (List Step) → Prop → Path → Path → Prop
  | none, _, _, _ => False
  | some steps, named, path, place => named ∨ UnmeasuredIn steps True (path.key .catchSteps) 0 place

end

end Step

/-- What is known of a scope that was measured: what it weighs is no more than the peak, and the variable of the error
is bound only where it may be. -/
structure Noted (named : Prop) (weight : Scope → Nat) (scope : Scope) (meter : Meter) : Prop where
  weight_le : weight scope ≤ meter.stats.memoryPeak
  named_of_contains : scope.contains Engine.errorVariable → named

theorem Noted.grow {named : Prop} {weight : Scope → Nat} {scope : Scope} {before after : Meter}
    (h : Noted named weight scope before) (hgrown : before.stats.memoryPeak ≤ after.stats.memoryPeak) :
    Noted named weight scope after :=
  ⟨Nat.le_trans h.weight_le hgrown, h.named_of_contains⟩

namespace Exec

variable {α β : Type} {named : Prop} {weight : Scope → Nat} {missed more : Path → Prop}

/-- From a measured scope an execution comes to a measured scope, or fails where that may be missed. -/
def Notes (named : Prop) (weight : Scope → Nat) (missed : Path → Prop) (x : Exec α) : Prop :=
  ∀ scope meter, Noted named weight scope meter →
    Noted named weight (x scope meter).scope (x scope meter).meter ∨
      ∃ failure, (x scope meter).outcome = .error failure ∧ missed failure.path

/-- If an execution fails from a measured scope, what its scope weighs is measured, or the failure comes from where that
may be missed. -/
def NotesFailures (named : Prop) (weight : Scope → Nat) (missed : Path → Prop) (x : Exec α) : Prop :=
  ∀ scope meter failure, Noted named weight scope meter →
    meter.stats.memoryPeak ≤ (x scope meter).meter.stats.memoryPeak → (x scope meter).outcome = .error failure →
    weight (x scope meter).scope ≤ (x scope meter).meter.stats.memoryPeak ∨ missed failure.path

theorem Notes.mono {x : Exec α} (h : x.Notes named weight missed) (hmore : ∀ place, missed place → more place) :
    x.Notes named weight more :=
  fun scope meter hstart =>
    (h scope meter hstart).imp_right fun ⟨failure, hfailure, hmissed⟩ => ⟨failure, hfailure, hmore _ hmissed⟩

theorem Notes.notesFailures {x : Exec α} (h : x.Notes named weight missed) : x.NotesFailures named weight missed := by
  intro scope meter failure hstart _ hfailure
  rcases h scope meter hstart with hnoted | ⟨other, hother, hmissed⟩
  · exact .inl hnoted.weight_le
  · rw [hfailure] at hother
    obtain rfl := Except.error.inj hother
    exact .inr hmissed

/-- An execution that succeeds misses nothing. -/
theorem Notes.noted_of_ok {x : Exec α} (h : x.Notes named weight missed) {scope : Scope} {meter : Meter} {a : α}
    (hstart : Noted named weight scope meter) (hok : (x scope meter).outcome = .ok a) :
    Noted named weight (x scope meter).scope (x scope meter).meter := by
  refine (h scope meter hstart).resolve_right ?_
  rintro ⟨failure, hfailure, -⟩
  rw [hok] at hfailure
  cases hfailure

theorem notes_bind {x : Exec α} {next : α → Exec β} (hx : x.Notes named weight missed)
    (hnext : ∀ a, (next a).Notes named weight missed) : (x >>= next).Notes named weight missed := by
  intro scope meter hstart
  cases h : (x scope meter).outcome with
  | error failure =>
    have hfirst := hx scope meter hstart
    rw [h] at hfirst
    rw [bind_of_error h]
    exact hfirst.imp_right fun ⟨other, hother, hmissed⟩ => ⟨other, Except.error.inj hother ▸ rfl, hmissed⟩
  | ok a =>
    rw [bind_of_ok h]
    exact hnext a _ _ (hx.noted_of_ok hstart h)

theorem notes_composes (named : Prop) (weight : Scope → Nat) (missed : Path → Prop) :
    Composes fun {_} x => Notes named weight missed x where
  pure _ := fun _ _ hstart => .inl hstart
  raise _ _ := fun _ _ hstart => .inl hstart
  scope := fun _ _ hstart => .inl hstart
  bind := notes_bind

end Exec

namespace Engine

open Exec

/-- Wherever a step is executed, it comes from a measured scope to a measured one or fails where that may be missed,
for every weight of scopes that their size covers. -/
def NotesStep (engine : Engine) (s : Step) : Prop :=
  ∀ (named : Prop) (weight : Scope → Nat), (∀ scope, weight scope ≤ scope.size) → (errorVariable ∈ s.writes → named) →
    ∀ path depth, depth ≤ engine.limits.maxDepth →
      (engine.runStep s path depth).Notes named weight (s.Unmeasured named path)

section

variable {engine : Engine} {s : Step} {path : Path} {depth : Nat} {named : Prop} {weight : Scope → Nat}

/-! ### Steps and lists -/

theorem size_le_of_endStep (s : Step) (path : Path) (v : Value) (scope : Scope) (meter : Meter) :
    (endStep s path (.ok v) scope meter).scope.size ≤
      (endStep s path (.ok v) scope meter).meter.stats.memoryPeak := by
  rw [endStep]
  cases s.output <;> exact Nat.le_max_right _ _

theorem endStep_of_error (s : Step) (path : Path) (failure : Failure) (scope : Scope) (meter : Meter) :
    (endStep s path (.error failure) scope meter).scope = scope ∧
      (endStep s path (.error failure) scope meter).meter = meter := by
  rw [endStep]
  split <;> exact ⟨rfl, rfl⟩

/-- What binds the variable of the error is among what a step writes. -/
theorem named_of_contains_runStep (hnamed : errorVariable ∈ s.writes → named) {scope : Scope} {meter : Meter}
    (hstart : scope.contains errorVariable → named)
    (h : (engine.runStep s path depth scope meter).scope.contains errorVariable) : named := by
  by_cases hwrites : errorVariable ∈ s.writes
  · exact hnamed hwrites
  · rw [Scope.contains_eq, (changesAt_runStep engine path depth s scope meter).kept _ hwrites] at h
    exact hstart h

/-- A step is refused where it stands, or what its kind does is followed by its end. -/
theorem supervise_cases (engine : Engine) (s : Step) (body : Located) (path : Path) (depth : Nat) (scope : Scope)
    (meter : Meter) :
    let whole := engine.supervise s body path depth scope meter
    let own := body path depth scope (meter.tick.record s.kind)
    let ended := endStep s path own.outcome own.scope own.meter
    whole.scope = scope ∧ whole.meter = meter.tick ∨
      whole.outcome = own.outcome ∧ whole.scope = ended.scope ∧ whole.meter = ended.meter := by
  intro whole own ended
  rcases startStep_cases engine path depth s scope meter with ⟨error, -, heq⟩ | ⟨-, heq⟩
  · have hwhole : whole = ⟨.error ⟨path, error⟩, scope, meter.tick, [⟨.refuse ⟨path, error⟩, meter.tick⟩]⟩ := by
      change engine.supervise s body path depth scope meter = _
      rw [supervise, bind_of_error (by rw [heq]), heq]
    rw [hwhole]
    exact .inl ⟨rfl, rfl⟩
  · let began : Moment := ⟨.tell (.stepStarted path s.kind s.describe depth), meter.tick.record s.kind⟩
    have hwhole : whole = { ended with log := began :: (own.log ++ ended.log) } := by
      have hbegun := supervise_of_begun engine s body path depth scope meter (by rw [heq])
      rw [heq] at hbegun
      exact hbegun
    rw [hwhole]
    exact .inr ⟨endStep_outcome s path own.outcome own.scope own.meter, rfl, rfl⟩

/-- A step that succeeds is measured at its end, so only what its kind leaves behind at a failure is in question. -/
theorem notesStep_supervise {body : Located} (hrun : engine.runStep s = engine.supervise s body)
    (h : ∀ (named : Prop) (weight : Scope → Nat), (∀ scope, weight scope ≤ scope.size) →
      (errorVariable ∈ s.writes → named) → ∀ path depth,
        (body path depth).NotesFailures named weight (s.Unmeasured named path)) : engine.NotesStep s := by
  intro named weight hweight hnamed path depth hdepth scope meter hstart
  let own := body path depth scope (meter.tick.record s.kind)
  let whole := engine.runStep s path depth scope meter
  have hcontains : whole.scope.contains errorVariable → named :=
    named_of_contains_runStep hnamed hstart.named_of_contains
  have hgrown : meter.stats.memoryPeak ≤ whole.meter.stats.memoryPeak :=
    (growsAt_runStep engine s path depth hdepth scope meter).memoryPeak_le
  have hcases := supervise_cases engine s body path depth scope meter
  rw [← hrun] at hcases
  change Noted named weight whole.scope whole.meter ∨ ∃ failure, whole.outcome = .error failure ∧ _
  rcases hcases with ⟨hscope, hmeter⟩ | ⟨houtcome, hscope, hmeter⟩
  · change whole.scope = scope at hscope
    change whole.meter = meter.tick at hmeter
    rw [hscope, hmeter]
    exact .inl (hstart.grow (Nat.le_refl _))
  · change whole.outcome = own.outcome at houtcome
    change whole.scope = (endStep s path own.outcome own.scope own.meter).scope at hscope
    change whole.meter = (endStep s path own.outcome own.scope own.meter).meter at hmeter
    cases hown : own.outcome with
    | ok v =>
      have hsize := size_le_of_endStep s path v own.scope own.meter
      rw [← hown, ← hscope, ← hmeter] at hsize
      exact .inl ⟨Nat.le_trans (hweight _) hsize, hcontains⟩
    | error failure =>
      obtain ⟨hsame, hstill⟩ := endStep_of_error s path failure own.scope own.meter
      rw [← hown, ← hscope] at hsame
      rw [← hown, ← hmeter] at hstill
      rw [hstill] at hgrown
      have hbegun : Noted named weight scope (meter.tick.record s.kind) := hstart.grow (Nat.le_refl _)
      rcases h named weight hweight hnamed path depth scope _ failure hbegun hgrown hown with hfits | hmissed
      · rw [← hsame, ← hstill] at hfits
        exact .inl ⟨hfits, hcontains⟩
      · exact .inr ⟨failure, houtcome.trans hown, hmissed⟩

/-- A step whose kind leaves the scope as it is misses nothing. -/
theorem notesStep_of_leavesScope {body : Located} (hrun : engine.runStep s = engine.supervise s body)
    (h : ∀ path depth, (body path depth).LeavesScope) : engine.NotesStep s := by
  refine notesStep_supervise hrun fun named weight _ _ path depth scope meter failure hstart hgrown _ => .inl ?_
  rw [h path depth scope meter]
  exact Nat.le_trans hstart.weight_le hgrown

theorem notes_sequence {steps : List Step}
    (h : ∀ s ∈ steps, ∀ i, (engine.runStep s (path.index i) depth).Notes named weight
      (s.Unmeasured named (path.index i))) (i : Nat) (last : Value) :
    (sequence path depth i last (engine.runSteps steps)).Notes named weight
      (Step.UnmeasuredIn steps named path i) := by
  induction steps generalizing i last with
  | nil => exact (notes_composes named weight _).pure last
  | cons s rest ih =>
    have hfirst := h s List.mem_cons_self i
    have hrest := ih (fun t ht => h t (List.mem_cons_of_mem _ ht)) (i + 1)
    refine notes_bind (hfirst.mono fun place hplace => ?_) fun v => (hrest v).mono fun place hplace => ?_
    · exact .inl hplace
    · exact .inr hplace

/-- A list is refused, or its steps are executed one after the other. -/
theorem notes_runSteps {steps : List Step} (h : ∀ s ∈ steps, engine.NotesStep s)
    (hweight : ∀ scope, weight scope ≤ scope.size) (hnamed : errorVariable ∈ Step.writesAll steps → named) :
    (engine.runList (engine.runSteps steps) path depth).Notes named weight
      (Step.UnmeasuredIn steps named path 0) := by
  by_cases hdeep : engine.limits.maxDepth < depth
  · rw [runList_of_deep hdeep]
    exact fun _ _ hstart => .inl hstart
  · rw [runList, checkDepth, if_neg hdeep]
    refine notes_sequence (fun s hs i => ?_) 0 .null
    exact h s hs named weight hweight (fun hwrites => hnamed (Step.writes_subset_writesAll hs hwrites)) _ _
      (Nat.not_lt.mp hdeep)

/-! ### Branches -/

theorem exists_of_getElem?_attempts {list : Path} {scope : Scope} {i k : Nat} {meter : Meter} {branches : List Step}
    {ran : Ran Value} (h : (engine.attempts list depth scope i meter branches)[k]? = some ran) :
    ∃ branch before, ran = engine.runStep branch (list.index (i + k)) depth scope before := by
  induction branches generalizing i k meter with
  | nil => cases h
  | cons branch rest ih =>
    cases k with
    | zero => exact ⟨branch, meter, (Option.some.inj h).symm⟩
    | succ k =>
      obtain ⟨other, before, hran⟩ := ih h
      rw [Nat.add_right_comm, Nat.add_assoc] at hran
      exact ⟨other, before, hran⟩

theorem exists_of_produced {branches : List Step} {rans : List (Ran Value)} (h : produced branches rans ≠ []) :
    ∃ (j : Nat) (branch : Step) (ran : Ran Value) (v : Value), branches[j]? = some branch ∧ branch.output.isSome ∧
      rans[j]? = some ran ∧ ran.outcome = .ok v := by
  obtain ⟨entry, hentry⟩ := List.exists_mem_of_ne_nil _ h
  obtain ⟨⟨branch, ran⟩, hpair, hproduced⟩ := List.mem_filterMap.mp hentry
  obtain ⟨j, hj⟩ := List.mem_iff_getElem?.mp hpair
  obtain ⟨hbranch, hran⟩ := List.getElem?_zip_eq_some.mp hj
  rw [produced?] at hproduced
  split at hproduced
  next name v hname hok => exact ⟨j, branch, ran, v, hbranch, by rw [hname]; rfl, hran, hok⟩
  · cases hproduced

theorem prefix_of_runStep {scope : Scope} {meter : Meter} {failure : Failure}
    (h : (engine.runStep s path depth scope meter).outcome = .error failure) : path <+: failure.path :=
  ((tellsTrace engine s path depth scope meter).endsAt (Ran.failure?_of_error h)).1

/-- A branch that produced something is another one than that which the failure comes from. -/
theorem notesFailures_runParallel (branches : List Step) (output : Option String) :
    (engine.runParallel (branches.map Step.output) (engine.runSteps branches) path depth).NotesFailures named weight
      ((Step.parallel branches output).Unmeasured named path) := by
  intro scope meter failure hstart hgrown hfailure
  by_cases hdeep : engine.limits.maxDepth < depth + 1
  · rw [runParallel_of_deep hdeep]
    exact .inl hstart.weight_le
  · let rans := engine.attempts (path.key .steps) (depth + 1) scope 0 meter branches
    let own := engine.runParallel (branches.map Step.output) (engine.runSteps branches) path depth scope meter
    have hown : own = _ := runParallel_eq engine branches path scope meter (Nat.le_of_not_lt hdeep)
    by_cases hproduced : produced branches rans = []
    · have hscope : own.scope = scope := by
        rw [hown]
        refine (joinBranches_writes _ _ _ _).1.trans ?_
        rw [mergeOutputs_attempts, hproduced]
        rfl
      change weight own.scope ≤ own.meter.stats.memoryPeak ∨ _
      rw [hscope]
      exact .inl (Nat.le_trans hstart.weight_le hgrown)
    · obtain ⟨j, branch, ran, v, hbranch, houtput, hj, hok⟩ := exists_of_produced hproduced
      have hfirst : firstFailure? rans = some failure := by
        change own.outcome = _ at hfailure
        rw [hown] at hfailure
        exact ((joinBranches_outcome rans _ scope _).2 failure).mp hfailure
      obtain ⟨failed, hmem, hfails⟩ := exists_of_firstFailure hfirst
      obtain ⟨i, hi⟩ := List.mem_iff_getElem?.mp hmem
      obtain ⟨culprit, before, hran⟩ := exists_of_getElem?_attempts hi
      rw [Nat.zero_add] at hran
      refine .inr ⟨i, j, branch, prefix_of_runStep (hran ▸ hfails), ?_, hbranch, houtput⟩
      rintro rfl
      obtain rfl := Option.some.inj (hi.symm.trans hj)
      rw [hok] at hfails
      cases hfails

/-! ### Recovery -/

/-- Behind a recovering list the scope is measured without the variable of the error if that was not bound before. -/
theorem noted_restore {steps : List Step} (h : ∀ s ∈ steps, engine.NotesStep s)
    (hweight : ∀ scope, weight scope ≤ scope.size) {scope : Scope} {meter : Meter}
    (hstart : Noted named weight scope meter) (info : Value) :
    let list := path.key .catchSteps
    let caught := engine.runList (engine.runSteps steps) list depth (scope.set errorVariable info) meter
    Noted named weight (caught.scope.restore errorVariable (scope.get? errorVariable)) caught.meter ∨
      (∃ place, Step.UnmeasuredBehind (some steps) named path place) ∧
        ∀ failure, caught.outcome = .error failure → Step.UnmeasuredBehind (some steps) named path failure.path := by
  intro list caught
  by_cases hbound : named
  · exact .inr ⟨⟨path, .inl hbound⟩, fun _ _ => .inl hbound⟩
  · have habsent : scope.get? errorVariable = none := by
      rw [← Option.not_isSome_iff_eq_none]
      exact fun hcontains => hbound (hstart.named_of_contains hcontains)
    -- What the list writes besides the error is weighed.
    let weightBeside (inner : Scope) : Nat := weight (inner.remove errorVariable)
    have hinner : Noted True weightBeside (scope.set errorVariable info) meter := by
      refine ⟨?_, fun _ => trivial⟩
      change weight ((scope.set errorVariable info).remove errorVariable) ≤ _
      rw [Scope.remove_set habsent]
      exact hstart.weight_le
    have hbeside (inner : Scope) : weightBeside inner ≤ inner.size :=
      Nat.le_trans (hweight _) (Scope.size_remove_le inner errorVariable)
    rcases notes_runSteps h hbeside (fun _ => trivial) _ _ hinner with hnoted | ⟨failure, hfailure, hmissed⟩
    · rw [habsent]
      refine .inl ⟨hnoted.weight_le, fun hcontains => ?_⟩
      rw [Scope.contains_eq, Scope.get?_restore_self] at hcontains
      cases hcontains
    · refine .inr ⟨⟨failure.path, .inr hmissed⟩, fun other hother => ?_⟩
      obtain rfl := Except.error.inj (hfailure.symm.trans hother)
      exact .inr hmissed

section

variable {attempt always : List Step} {recovery : Option (List Step)}
  (hattempt : ∀ s ∈ attempt, engine.NotesStep s)
  (hrecovery : ∀ steps, recovery = some steps → ∀ s ∈ steps, engine.NotesStep s)
  (halways : ∀ s ∈ always, engine.NotesStep s) (hweight : ∀ scope, weight scope ≤ scope.size)

include hattempt hrecovery hweight

/-- A list that is protected leaves a measured scope, unless another one recovers from its failure. -/
theorem noted_runProtected (path : Path) (depth : Nat) (hnamed : errorVariable ∈ Step.writesAll attempt → named)
    {scope : Scope} {meter : Meter} (hstart : Noted named weight scope meter) :
    let guarded := engine.runProtected (engine.runSteps attempt) (engine.runOption recovery) path depth scope meter
    Noted named weight guarded.scope guarded.meter ∨
      (∃ place, Step.UnmeasuredBehind recovery named path place) ∧
        ∀ failure, guarded.outcome = .error failure →
          path.key .catchSteps <+: failure.path ∧ Step.UnmeasuredBehind recovery named path failure.path := by
  intro guarded
  have htried : (engine.runList (engine.runSteps attempt) (path.key .trySteps) (depth + 1)).Notes named weight
      (Step.UnmeasuredIn attempt named (path.key .trySteps) 0) := notes_runSteps hattempt hweight hnamed
  rcases runProtected_cases engine attempt recovery path depth scope meter with
    ⟨⟨v, hok⟩, hguarded⟩ | ⟨failure, -, -, hguarded⟩ | ⟨failure, steps, -, -, rfl, hguarded⟩
  · change guarded = _ at hguarded
    rw [hguarded]
    exact .inl (htried.noted_of_ok hstart hok)
  · change guarded = _ at hguarded
    rw [hguarded]
    exact .inl (hstart.grow (grows_runSteps engine _ _ scope meter attempt).memoryPeak_le)
  · change guarded = _ at hguarded
    rw [hguarded]
    have hgrown := (grows_runSteps engine (path.key .trySteps) (depth + 1) scope meter attempt).memoryPeak_le
    refine (noted_restore (hrecovery steps rfl) hweight (hstart.grow hgrown) _).imp_right ?_
    exact fun ⟨hmissed, hfailures⟩ => ⟨hmissed, fun other hother => ⟨prefix_of_runList hother, hfailures other hother⟩⟩

include halways

theorem notesFailures_runTryCatch {output : Option String}
    (hnamed : errorVariable ∈ (Step.tryCatch attempt recovery always output).writes → named) :
    (engine.runTryCatch (engine.runSteps attempt) (engine.runOption recovery) (engine.runSteps always) path
      depth).NotesFailures named weight ((Step.tryCatch attempt recovery always output).Unmeasured named path) := by
  intro scope meter failure hstart _ hfailure
  have hattempts : errorVariable ∈ Step.writesAll attempt → named := fun h => hnamed (by simp [Step.writes, h])
  have hlast : errorVariable ∈ Step.writesAll always → named := fun h => hnamed (by simp [Step.writes, h])
  let guarded := engine.runProtected (engine.runSteps attempt) (engine.runOption recovery) path depth scope meter
  have hguarded := noted_runProtected hattempt hrecovery hweight path depth hattempts hstart
  change Noted named weight guarded.scope guarded.meter ∨ _ at hguarded
  rw [runTryCatch] at hfailure ⊢
  by_cases hfatal : ∃ refusal, guarded.outcome = .error refusal ∧ refusal.error.isFatal
  · obtain ⟨refusal, herror, hfatal⟩ := hfatal
    rw [ensuring_of_fatal herror hfatal] at hfailure ⊢
    exact hguarded.imp (·.weight_le) fun hmissed => .inl (hmissed.2 failure hfailure)
  · have hordinary (other : Failure) (herror : guarded.outcome = .error other) : other.error.isFatal = false :=
      Bool.eq_false_iff.mpr fun h => hfatal ⟨other, herror, h⟩
    rw [ensuring_of_ordinary hordinary] at hfailure ⊢
    let ended := engine.runUnlessEmpty (engine.runSteps always) (path.key .finallySteps) (depth + 1) guarded.scope
      guarded.meter
    change ended.outcome.bind (fun _ => guarded.outcome) = _ at hfailure
    change weight ended.scope ≤ ended.meter.stats.memoryPeak ∨ _
    rcases hguarded with hnoted | ⟨⟨place, hplace⟩, hfailures⟩
    · have hnotes := composes_runUnlessEmpty (notes_composes named weight _) engine (path.key .finallySteps) (depth + 1)
        (notes_runSteps halways hweight hlast)
      rcases hnotes guarded.scope guarded.meter hnoted with hended | ⟨late, hlate, hmissed⟩
      · exact .inl hended.weight_le
      · change ended.outcome = _ at hlate
        rw [hlate] at hfailure
        obtain rfl := Except.error.inj hfailure
        exact .inr (.inr (.inr hmissed))
    · cases hlate : ended.outcome with
      | error late =>
        rw [hlate] at hfailure
        obtain rfl := Except.error.inj hfailure
        exact .inr (.inr (.inl ⟨prefix_of_runUnlessEmpty hlate, place, hplace⟩))
      | ok v =>
        rw [hlate] at hfailure
        exact .inr (.inl (hfailures failure hfailure))

end

end

/-- Wherever a step is executed, a measurement is missed only on the way of the failures that are said to miss one. -/
theorem notesStep (engine : Engine) (s : Step) : engine.NotesStep s := by
  induction s using Step.induction with
  | ability name input output =>
    refine notesStep_of_leavesScope rfl fun path depth => ?_
    exact composes_runAbility leavesScope_composes engine path depth name input (leavesScope_call engine path name)
  | transform operation input params output =>
    refine notesStep_of_leavesScope rfl fun path depth => ?_
    exact composes_runTransform leavesScope_composes engine path depth operation input params
  | conditional condition whenTrue whenFalse output htrue hfalse =>
    refine notesStep_supervise rfl fun named weight hweight hnamed path depth => Notes.notesFailures ?_
    refine composes_runConditional (notes_composes named weight _) engine path depth condition ?_ ?_
    · refine (notes_runSteps htrue hweight fun h => hnamed ?_).mono fun place hplace => .inl hplace
      simp [Step.writes, h]
    · refine (notes_runSteps hfalse hweight fun h => hnamed ?_).mono fun place hplace => .inr hplace
      simp [Step.writes, h]
  | loop input body itemVar indexVar collect output =>
    refine notesStep_of_leavesScope rfl fun path depth => ?_
    exact composes_runLoop leavesScope_composes engine path depth input itemVar indexVar collect fun _ _ _ => rfl
  | parallel branches output =>
    exact notesStep_supervise rfl fun _ _ _ _ _ _ => notesFailures_runParallel branches output
  | tryCatch attempt recovery always output hattempt hrecovery halways =>
    refine notesStep_supervise rfl fun named weight hweight hnamed path depth => ?_
    exact notesFailures_runTryCatch hattempt hrecovery halways hweight hnamed
  | subPipeline pipeline inputs output =>
    obtain ⟨name, description, steps, result, limits⟩ := pipeline
    refine notesStep_of_leavesScope rfl fun path depth => ?_
    exact composes_runNested leavesScope_composes engine path depth result inputs fun _ _ _ => rfl

/-- The peak of a run is no less than the size of the scope that it begins in, nor than that of the scope that it ends
in, unless it fails and the failure comes from where a measurement may be missed. The variable of the error may be bound
if it is at the beginning or if a step writes to it. -/
theorem runPipeline_memoryPeak (engine : Engine) (pipeline : Pipeline) (context : Value) (clock : Clock) :
    let report := engine.runPipeline pipeline context clock
    let named := (Scope.ofValue context).contains "error" ∨ "error" ∈ Step.writesAll pipeline.steps
    (Scope.ofValue context).size ≤ report.stats.memoryPeak ∧
    ((Scope.ofValue report.context).size ≤ report.stats.memoryPeak ∨
      ∃ failure, report.error = some (failure.escaped.info (some failure.path.text)) ∧
        (engine.runTop pipeline context clock).outcome = .error failure ∧
        Step.UnmeasuredIn pipeline.steps named Path.top 0 failure.path) := by
  intro report named
  let scope := Scope.ofValue context
  let ran := engine.runTop pipeline context clock
  have hstats : report.stats = ran.meter.stats := runPipeline_stats engine pipeline context clock
  have hcontext : Scope.ofValue report.context = ran.scope := by
    change Scope.ofValue (engine.runPipeline pipeline context clock).context = _
    rw [runPipeline_context, Scope.ofValue_toValue]
  have hnoted : scope.size ≤ ((Meter.fresh clock).observe scope.size).stats.memoryPeak := Nat.le_max_right _ _
  have hsteps : (engine.runList (engine.runSteps pipeline.steps) Path.top 0).Notes named Scope.size
      (Step.UnmeasuredIn pipeline.steps named Path.top 0) :=
    notes_runSteps (fun s _ => notesStep engine s) (fun _ => Nat.le_refl _) .inr
  have hnotes := hsteps scope _ ⟨hnoted, .inl⟩
  rw [hstats, hcontext]
  refine ⟨Nat.le_trans hnoted (growsAt_runTop engine pipeline context clock).memoryPeak_le, ?_⟩
  refine hnotes.imp (·.weight_le) fun ⟨failure, hfailure, hmissed⟩ => ⟨failure, ?_, hfailure, hmissed⟩
  exact congrArg Report.error (runPipeline_of_error engine pipeline context clock hfailure)

/-- Two branches of a parallel step bind a number each and the third one fails. Both numbers are taken over, and the
scope at the end, of 66 bytes, is larger than the scopes of the branches, which are measured at 33. -/
theorem not_forall_memoryPeak :
    ¬ ∀ (engine : Engine) (pipeline : Pipeline) (context : Value) (clock : Clock),
      let report := engine.runPipeline pipeline context clock
      (Scope.ofValue context).size ≤ report.stats.memoryPeak ∧
        (Scope.ofValue report.context).size ≤ report.stats.memoryPeak := by
  intro hforall
  let count (name : String) : Step := .transform "count" .null [] (some name)
  let branches : Step := .parallel [count "a", count "b", .ability "missing" .null none] none
  let engine : Engine := ⟨.none, .builtin, .standard⟩
  let pipeline : Pipeline := ⟨none, none, [branches], none, none⟩
  let report := engine.runPipeline pipeline (.obj [])
  have hcontext : (Scope.ofValue report.context).size = 66 := by decide +kernel
  have hpeak : report.stats.memoryPeak = 33 := by decide +kernel
  have hle : (Scope.ofValue report.context).size ≤ report.stats.memoryPeak :=
    (hforall engine pipeline (.obj []) .still).2
  rw [hcontext, hpeak] at hle
  exact absurd hle (by decide)

/-- A recovering list binds a number while the variable of the error holds the error, and fails. Then that variable has
its longer text again, and the two are not measured together. -/
example :
    let missing : Step := .ability "missing" .null none
    let attempt : Step := .tryCatch [missing] (some [.transform "count" .null [] (some "x"), missing]) [] none
    let context : Value := .obj [("error", .str (String.ofList (List.replicate 310 '-')))]
    let report := (Engine.mk .none .builtin .standard).runPipeline ⟨none, none, [attempt], none, none⟩ context
    (Scope.ofValue context).size = 347 ∧ report.stats.memoryPeak = 347 ∧ (Scope.ofValue report.context).size = 380 := by
  decide +kernel

end Engine

end Pipewright
