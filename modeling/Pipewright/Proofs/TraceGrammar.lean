import Pipewright.Proofs.PathText
import Pipewright.Proofs.Refusal

/-!
# The grammar of traces

What a run tells has the shape of the pipeline. A step tells of its start, then of the steps inside it that are
executed, then of its end, unless the failure that ends it came from inside. `Trace` is the grammar of that: it derives
what each part of a pipeline can tell, together with the failure that it ends with, if it fails. Nothing in it speaks
of scopes, meters or values.
-/
namespace Pipewright

namespace Path

/-- A place strictly inside another one. -/
def Below (place upper : Path) : Prop := upper <+: place ∧ place ≠ upper

instance (place upper : Path) : Decidable (place.Below upper) :=
  inferInstanceAs (Decidable (upper <+: place ∧ place ≠ upper))

variable {place upper : Path}

theorem below_of_index {list : Path} {i : Nat} (h : list.index i <+: place) : place.Below list := by
  refine ⟨(List.prefix_append _ _).trans h, ?_⟩
  rintro rfl
  have hlength := h.length_le
  simp only [index, List.length_append, List.length_singleton] at hlength
  omega

theorem below_of_key {step : Path} {k : Key} (h : step.key k <+: place) : place.Below step := by
  refine ⟨(List.prefix_append _ _).trans h, ?_⟩
  rintro rfl
  have hlength := h.length_le
  simp only [key, List.length_append, List.length_singleton] at hlength
  omega

theorem Below.widen {top : Path} (h : place.Below upper) (htop : top <+: upper) : place.Below top := by
  refine ⟨htop.trans h.1, ?_⟩
  rintro rfl
  exact h.2 (htop.eq_of_length_le h.1.length_le)

/-- Texts tell apart what stands at a place and what stands below it. -/
theorem Below.text_ne (h : place.Below upper) : place.text ≠ upper.text := fun heq => h.2 (text_injective heq)

end Path

/-- What a log tells, oldest first. -/
def eventsIn (log : List Moment) : List (Event Path) := log.filterMap fun moment => moment.act.event?

@[simp] theorem eventsIn_append (first second : List Moment) :
    eventsIn (first ++ second) = eventsIn first ++ eventsIn second :=
  List.filterMap_append

namespace Event

/-- The event tells of a step at a place or inside it. -/
def IsWithin (event : Event Path) (upper : Path) : Prop := ∃ place, event.place? = some place ∧ upper <+: place

/-- The event tells of a step strictly below a place. -/
def IsBelow (event : Event Path) (upper : Path) : Prop := ∃ place, event.place? = some place ∧ place.Below upper

/-- A step at a place goes on after the failure of a step inside it. -/
def IsRecoveryAt (event : Event Path) (step : Path) : Prop :=
  ∃ failed error, event = .errorRecovered step failed error

/-- What a step tells between its start and its end: it is about steps strictly below, but for the recovery of a step
that protects a list. -/
def IsInside (event : Event Path) (s : Step) (path : Path) : Prop :=
  event.IsBelow path ∨ s.kind = .tryCatch ∧ event.IsRecoveryAt path

variable {event : Event Path} {upper top : Path}

theorem isWithin_of_place (h : event.place? = some upper) : event.IsWithin upper := ⟨upper, h, List.prefix_rfl⟩

theorem IsWithin.widen (h : event.IsWithin upper) (htop : top <+: upper) : event.IsWithin top :=
  h.imp fun _ hplace => ⟨hplace.1, htop.trans hplace.2⟩

theorem IsWithin.below_of_index {i : Nat} (h : event.IsWithin (top.index i)) : event.IsBelow top :=
  h.imp fun _ hplace => ⟨hplace.1, Path.below_of_index hplace.2⟩

theorem IsWithin.below_of_key {k : Key} (h : event.IsWithin (top.key k)) : event.IsBelow top :=
  h.imp fun _ hplace => ⟨hplace.1, Path.below_of_key hplace.2⟩

theorem IsBelow.isWithin (h : event.IsBelow upper) : event.IsWithin upper :=
  h.imp fun _ hplace => ⟨hplace.1, hplace.2.1⟩

theorem IsRecoveryAt.place (h : event.IsRecoveryAt upper) : event.place? = some upper := by
  obtain ⟨failed, error, rfl⟩ := h
  rfl

theorem IsBelow.not_recovery (h : event.IsBelow upper) : ¬ event.IsRecoveryAt upper := by
  intro hrecovery
  obtain ⟨place, hplace, hbelow⟩ := h
  exact hbelow.2 (Option.some.inj (hplace.symm.trans hrecovery.place))

theorem IsInside.isWithin {s : Step} (h : event.IsInside s upper) : event.IsWithin upper :=
  h.elim IsBelow.isWithin fun hrecovery => isWithin_of_place hrecovery.2.place

end Event

/-- What has a trace: steps, what their kinds do, lists, what is left of a list, the rounds of a loop, the branches of
a parallel step, and a protected list with the one that recovers from its failure. -/
inductive Part where
  | step (s : Step) (path : Path) (depth : Nat)
  | kind (s : Step) (path : Path) (depth : Nat)
  | list (steps : List Step) (path : Path) (depth : Nat)
  | rest (steps : List Step) (path : Path) (depth : Nat) (i : Nat)
  | rounds (body : List Step) (path : Path) (depth : Nat)
  | branches (steps : List Step) (path : Path) (depth : Nat) (i : Nat)
  | guarded (attempt : List Step) (recovery : Option (List Step)) (path : Path) (depth : Nat)

/-- The failure of two branches: the first one, unless only the other one is that of a limit. -/
def Failure.graver : Option Failure → Option Failure → Option Failure
  | some first, some second =>
    if first.error.isFatal = false ∧ second.error.isFatal then some second else some first
  | some first, none => some first
  | none, other => other

/-- What a part of a pipeline tells when it is executed, and the failure that it ends with, if it fails. -/
inductive Trace : Part → List (Event Path) → Option Failure → Prop where
  /-- A step that a limit refuses tells nothing. -/
  | refused {s : Step} {path : Path} {depth : Nat} {error : RunError} : error.isFatal →
    Trace (.step s path depth) [] (some ⟨path, error⟩)
  /-- A step that has a value completes. -/
  | completed {s : Step} {path : Path} {depth : Nat} {inner : List (Event Path)} :
    Trace (.kind s path depth) inner none →
    (∀ event ∈ inner, event.IsInside s path) →
    Trace (.step s path depth)
      (.stepStarted path s.kind s.describe depth :: (inner ++ [.stepCompleted path s.kind])) none
  /-- A step in which an error arose fails. -/
  | failed {s : Step} {path : Path} {depth : Nat} {inner : List (Event Path)} {error : RunError} :
    Trace (.kind s path depth) inner (some ⟨path, error⟩) →
    (∀ event ∈ inner, event.IsInside s path) →
    Trace (.step s path depth)
      (.stepStarted path s.kind s.describe depth :: (inner ++ [.stepFailed path error.message])) (some ⟨path, error⟩)
  /-- A step that an error from inside ends tells nothing more. -/
  | ended {s : Step} {path : Path} {depth : Nat} {inner : List (Event Path)} {failure : Failure} :
    Trace (.kind s path depth) inner (some failure) →
    (∀ event ∈ inner, event.IsInside s path) →
    failure.path.Below path → failure.path.text ≠ path.text →
    Trace (.step s path depth) (.stepStarted path s.kind s.describe depth :: inner) (some failure)
  /-- A list that is nested too deep tells nothing. -/
  | tooDeep {steps : List Step} {path : Path} {depth : Nat} {error : RunError} : error.isFatal →
    Trace (.list steps path depth) [] (some ⟨path, error⟩)
  | entered {steps : List Step} {path : Path} {depth : Nat} {told : List (Event Path)} {ending : Option Failure} :
    Trace (.rest steps path depth 0) told ending → Trace (.list steps path depth) told ending
  | nothingLeft (path : Path) (depth i : Nat) : Trace (.rest [] path depth i) [] none
  /-- The first step that fails is the last one of its list. -/
  | stopped {s : Step} {rest : List Step} {path : Path} {depth i : Nat} {told : List (Event Path)}
    {failure : Failure} :
    Trace (.step s (path.index i) depth) told (some failure) →
    Trace (.rest (s :: rest) path depth i) told (some failure)
  | next {s : Step} {rest : List Step} {path : Path} {depth i : Nat} {told more : List (Event Path)}
    {ending : Option Failure} :
    Trace (.step s (path.index i) depth) told none → Trace (.rest rest path depth (i + 1)) more ending →
    Trace (.rest (s :: rest) path depth i) (told ++ more) ending
  /-- Only steps that evaluate something of their own can fail themselves, and for ordinary reasons unless they are
  transforms. -/
  | own {s : Step} {path : Path} {depth : Nat} {error : RunError} : s.kind ≠ .parallel → s.kind ≠ .tryCatch →
    error.isFatal = false → Trace (.kind s path depth) [] (some ⟨path, error⟩)
  | ability (name : String) (input : Value) (output : Option String) (path : Path) (depth : Nat) :
    Trace (.kind (.ability name input output) path depth) [] none
  /-- A registry may hold any transform, and that may fail for any reason. -/
  | transform (operation : String) (input : Value) (params : Fields Value) (output : Option String) (path : Path)
    (depth : Nat) (error : Option RunError) :
    Trace (.kind (.transform operation input params output) path depth) [] (error.map (Failure.mk path))
  /-- An empty list is not entered. -/
  | skipped {condition : Condition} {whenTrue whenFalse : List Step} {output : Option String} {path : Path}
    {depth : Nat} : whenTrue = [] ∨ whenFalse = [] →
    Trace (.kind (.conditional condition whenTrue whenFalse output) path depth) [] none
  | whenTrue {condition : Condition} {whenTrue whenFalse : List Step} {output : Option String} {path : Path}
    {depth : Nat} {told : List (Event Path)} {ending : Option Failure} :
    Trace (.list whenTrue (path.key .thenSteps) (depth + 1)) told ending →
    Trace (.kind (.conditional condition whenTrue whenFalse output) path depth) told ending
  | whenFalse {condition : Condition} {whenTrue whenFalse : List Step} {output : Option String} {path : Path}
    {depth : Nat} {told : List (Event Path)} {ending : Option Failure} :
    Trace (.list whenFalse (path.key .elseSteps) (depth + 1)) told ending →
    Trace (.kind (.conditional condition whenTrue whenFalse output) path depth) told ending
  | loop {input : Value} {body : List Step} {itemVar : String} {indexVar collect output : Option String}
    {path : Path} {depth : Nat} {told : List (Event Path)} {ending : Option Failure} :
    Trace (.rounds body (path.key .steps) (depth + 1)) told ending →
    Trace (.kind (.loop input body itemVar indexVar collect output) path depth) told ending
  | noRound (body : List Step) (path : Path) (depth : Nat) : Trace (.rounds body path depth) [] none
  /-- The first round that fails is the last one. -/
  | lastRound {body : List Step} {path : Path} {depth : Nat} {told : List (Event Path)} {failure : Failure} :
    Trace (.list body path depth) told (some failure) → Trace (.rounds body path depth) told (some failure)
  | nextRound {body : List Step} {path : Path} {depth : Nat} {told more : List (Event Path)}
    {ending : Option Failure} :
    Trace (.list body path depth) told none → Trace (.rounds body path depth) more ending →
    Trace (.rounds body path depth) (told ++ more) ending
  | tooDeepBranches {branches : List Step} {output : Option String} {path : Path} {depth : Nat} {error : RunError} :
    error.isFatal → Trace (.kind (.parallel branches output) path depth) [] (some ⟨path.key .steps, error⟩)
  | parallel {branches : List Step} {output : Option String} {path : Path} {depth : Nat} {told : List (Event Path)}
    {ending : Option Failure} :
    Trace (.branches branches (path.key .steps) (depth + 1) 0) told ending →
    Trace (.kind (.parallel branches output) path depth) told ending
  | noBranch (path : Path) (depth i : Nat) : Trace (.branches [] path depth i) [] none
  /-- A branch is executed whatever the others come to, and goes on beside them. -/
  | branch {s : Step} {rest : List Step} {path : Path} {depth i : Nat} {told more all : List (Event Path)}
    {first ending : Option Failure} :
    Trace (.step s (path.index i) depth) told first → Trace (.branches rest path depth (i + 1)) more ending →
    Interleaved told more all → Trace (.branches (s :: rest) path depth i) all (Failure.graver first ending)
  /-- Nothing recovers from a limit, nor without a list to recover with. -/
  | unrecovered {attempt : List Step} {recovery : Option (List Step)} {path : Path} {depth : Nat}
    {told : List (Event Path)} {ending : Option Failure} :
    Trace (.list attempt (path.key .trySteps) (depth + 1)) told ending →
    (∀ failure, ending = some failure → failure.error.isFatal ∨ recovery = none) →
    Trace (.guarded attempt recovery path depth) told ending
  /-- A step inside the protected list told that it failed, and the recovering list goes on from there. -/
  | recovered {attempt steps : List Step} {path : Path} {depth : Nat} {tried caught : List (Event Path)}
    {failure : Failure} {ending : Option Failure} :
    Trace (.list attempt (path.key .trySteps) (depth + 1)) tried (some failure) → failure.error.isFatal = false →
    failure.path.Below (path.key .trySteps) → .stepFailed failure.path failure.error.message ∈ tried →
    Trace (.list steps (path.key .catchSteps) (depth + 1)) caught ending →
    Trace (.guarded attempt (some steps) path depth)
      (tried ++ .errorRecovered path failure.path failure.error.message :: caught) ending
  /-- The list that runs in any case does not run after a limit. -/
  | unensured {attempt always : List Step} {recovery : Option (List Step)} {output : Option String} {path : Path}
    {depth : Nat} {told : List (Event Path)} {ending : Option Failure} :
    Trace (.guarded attempt recovery path depth) told ending →
    (always = [] ∨ ∃ failure, ending = some failure ∧ failure.error.isFatal) →
    Trace (.kind (.tryCatch attempt recovery always output) path depth) told ending
  /-- The failure of the list that runs in any case supersedes that of what it runs after. -/
  | ensured {attempt always : List Step} {recovery : Option (List Step)} {output : Option String} {path : Path}
    {depth : Nat} {told more : List (Event Path)} {ending last : Option Failure} :
    Trace (.guarded attempt recovery path depth) told ending →
    (∀ failure, ending = some failure → failure.error.isFatal = false) →
    Trace (.list always (path.key .finallySteps) (depth + 1)) more last →
    Trace (.kind (.tryCatch attempt recovery always output) path depth) (told ++ more) (last.or ending)
  | subPipeline {pipeline : Pipeline} {inputs : Fields Value} {output : Option String} {path : Path} {depth : Nat}
    {told : List (Event Path)} {ending : Option Failure} :
    Trace (.list pipeline.steps ((path.key .pipeline).key .steps) (depth + 1)) told ending →
    Trace (.kind (.subPipeline pipeline inputs output) path depth) told ending

/-- What a part may tell of, by where it stands. -/
def Part.Holds (event : Event Path) : Part → Prop
  | .step _ path _ => event.IsWithin path
  | .kind s path _ => event.IsInside s path
  | .list _ path _ | .rounds _ path _ => event.IsBelow path
  | .rest _ path _ i | .branches _ path _ i => ∃ j, i ≤ j ∧ event.IsWithin (path.index j)
  | .guarded _ _ path _ =>
    event.IsWithin (path.key .trySteps) ∨ event.IsWithin (path.key .catchSteps) ∨ event.IsRecoveryAt path

/-- A failure for an ordinary reason has been told by the step that it names. -/
def Failure.IsToldIn (failure : Failure) (told : List (Event Path)) : Prop :=
  failure.error.isFatal = false → .stepFailed failure.path failure.error.message ∈ told

/-- What a part that fails has to do with the place that its failure names: it is inside the part, and the failure has
been told there, unless it is that of a step which has not ended yet. -/
def Part.EndsAt (failure : Failure) (told : List (Event Path)) : Part → Prop
  | .step _ path _ => path <+: failure.path ∧ failure.IsToldIn told
  | .kind _ path _ => failure.path = path ∨ failure.path.Below path ∧ failure.IsToldIn told
  | .list _ path _ | .rounds _ path _ =>
    path <+: failure.path ∧ (failure.error.isFatal = false → failure.path.Below path) ∧ failure.IsToldIn told
  | .rest _ path _ _ | .branches _ path _ _ | .guarded _ _ path _ =>
    failure.path.Below path ∧ failure.IsToldIn told

/-- A step goes on at most once after the failure of a step inside it. -/
def RecoversOnce (step : Path) (told : List (Event Path)) : Prop :=
  told.Pairwise fun earlier later => earlier.IsRecoveryAt step → ¬ later.IsRecoveryAt step

namespace RecoversOnce

variable {step : Path} {told more : List (Event Path)}

theorem of_never (h : ∀ event ∈ told, ¬ event.IsRecoveryAt step) : RecoversOnce step told :=
  List.pairwise_of_forall_mem_list fun _ _ later hlater _ => h later hlater

theorem prepend (h : RecoversOnce step more) (hnever : ∀ event ∈ told, ¬ event.IsRecoveryAt step) :
    RecoversOnce step (told ++ more) :=
  List.pairwise_append.mpr ⟨of_never hnever, h, fun earlier hearlier _ _ hrecovery =>
    absurd hrecovery (hnever earlier hearlier)⟩

theorem extend (h : RecoversOnce step told) (hnever : ∀ event ∈ more, ¬ event.IsRecoveryAt step) :
    RecoversOnce step (told ++ more) :=
  List.pairwise_append.mpr ⟨h, of_never hnever, fun _ _ later hlater _ => hnever later hlater⟩

end RecoversOnce

namespace Failure

variable {failure : Failure} {told more : List (Event Path)}

theorem isToldIn_of_fatal (h : failure.error.isFatal) : failure.IsToldIn told :=
  fun hordinary => absurd h (by simp [hordinary])

theorem IsToldIn.mono (h : failure.IsToldIn told) (hsub : told ⊆ more) : failure.IsToldIn more :=
  fun hordinary => hsub (h hordinary)

theorem IsToldIn.prepend (h : failure.IsToldIn more) (told : List (Event Path)) : failure.IsToldIn (told ++ more) :=
  h.mono (List.subset_append_right _ _)

theorem IsToldIn.extend (h : failure.IsToldIn told) (more : List (Event Path)) : failure.IsToldIn (told ++ more) :=
  h.mono (List.subset_append_left _ _)

/-- The graver failure of two is one of them. -/
theorem eq_of_graver {first other : Option Failure} (h : graver first other = some failure) :
    first = some failure ∨ other = some failure := by
  cases first with
  | none => exact .inr h
  | some _ =>
    cases other with
    | none => exact .inl h
    | some _ =>
      rw [graver] at h
      split at h
      · exact .inr h
      · exact .inl h

end Failure

namespace Trace

variable {part : Part} {told : List (Event Path)} {ending : Option Failure}

/-- What a step tells between its start and its end is within it, and so are these. -/
theorem holds_step {path : Path} {depth : Nat} {s : Step} {inner closing : List (Event Path)}
    (hinside : ∀ event ∈ inner, event.IsInside s path) (hclosing : ∀ event ∈ closing, event.place? = some path) :
    ∀ event ∈ .stepStarted path s.kind s.describe depth :: (inner ++ closing), event.IsWithin path := by
  refine List.forall_mem_cons.mpr ⟨Event.isWithin_of_place rfl, List.forall_mem_append.mpr ⟨?_, ?_⟩⟩
  · exact fun event hevent => (hinside event hevent).isWithin
  · exact fun event hevent => Event.isWithin_of_place (hclosing event hevent)

/-- A protected list, and the one that recovers from its failure, tell of what is inside their step. -/
theorem inside_of_guarded {attempt always : List Step} {recovery : Option (List Step)} {output : Option String}
    {path : Path} {depth : Nat} {event : Event Path} (h : (Part.guarded attempt recovery path depth).Holds event) :
    event.IsInside (.tryCatch attempt recovery always output) path :=
  h.elim (fun htried => .inl htried.below_of_key) fun h =>
    h.elim (fun hcaught => .inl hcaught.below_of_key) fun hrecovery => .inr ⟨rfl, hrecovery⟩

/-- Parts tell of nothing outside of them. -/
theorem holds (h : Trace part told ending) : ∀ event ∈ told, part.Holds event := by
  induction h with
  | refused | tooDeep | nothingLeft | own | ability | transform | skipped | noRound | tooDeepBranches | noBranch =>
    exact nofun
  | completed _ hinside => exact holds_step hinside (List.forall_mem_singleton.mpr rfl)
  | failed _ hinside => exact holds_step hinside (List.forall_mem_singleton.mpr rfl)
  | @ended s path depth inner failure _ hinside =>
    rw [← List.append_nil inner]
    exact holds_step hinside nofun
  | entered _ ih =>
    intro event hevent
    obtain ⟨j, -, hwithin⟩ := ih event hevent
    exact hwithin.below_of_index
  | @stopped _ _ _ _ i _ _ _ ih => exact fun event hevent => ⟨i, Nat.le_refl i, ih event hevent⟩
  | next _ _ ihfirst ihmore =>
    refine List.forall_mem_append.mpr ⟨fun event hevent => ⟨_, Nat.le_refl _, ihfirst event hevent⟩, ?_⟩
    exact fun event hevent => (ihmore event hevent).imp fun _ hj => ⟨Nat.le_of_succ_le hj.1, hj.2⟩
  | branch _ _ hall ihfirst ihmore =>
    intro event hevent
    rcases hall.mem_iff.mp hevent with hevent | hevent
    · exact ⟨_, Nat.le_refl _, ihfirst event hevent⟩
    · exact (ihmore event hevent).imp fun _ hj => ⟨Nat.le_of_succ_le hj.1, hj.2⟩
  | whenTrue _ ih | whenFalse _ ih | loop _ ih =>
    exact fun event hevent => .inl (ih event hevent).isWithin.below_of_key
  | lastRound _ ih => exact ih
  | nextRound _ _ ihfirst ihmore => exact List.forall_mem_append.mpr ⟨ihfirst, ihmore⟩
  | parallel _ ih =>
    intro event hevent
    obtain ⟨j, -, hwithin⟩ := ih event hevent
    exact .inl hwithin.below_of_index.isWithin.below_of_key
  | unrecovered _ _ ih => exact fun event hevent => .inl (ih event hevent).isWithin
  | recovered _ _ _ _ _ ihtried ihcaught =>
    refine List.forall_mem_append.mpr ⟨fun event hevent => .inl (ihtried event hevent).isWithin, ?_⟩
    refine List.forall_mem_cons.mpr ⟨.inr (.inr ⟨_, _, rfl⟩), fun event hevent => ?_⟩
    exact .inr (.inl (ihcaught event hevent).isWithin)
  | unensured _ _ ih => exact fun event hevent => inside_of_guarded (ih event hevent)
  | ensured _ _ _ ihguarded ihlast =>
    refine List.forall_mem_append.mpr ⟨fun event hevent => inside_of_guarded (ihguarded event hevent), ?_⟩
    exact fun event hevent => .inl (ihlast event hevent).isWithin.below_of_key
  | subPipeline _ ih =>
    exact fun event hevent => .inl ((ih event hevent).isWithin.widen (List.prefix_append _ _)).below_of_key

/-- The failure of a step, told or not yet told, stands within the step. -/
theorem endsAt (h : Trace part told ending) {failure : Failure} (hfailure : ending = some failure) :
    part.EndsAt failure told := by
  induction h generalizing failure with
  | completed | nothingLeft | ability | skipped | noRound | noBranch => cases hfailure
  | refused hfatal =>
    obtain rfl := Option.some.inj hfailure
    exact ⟨List.prefix_rfl, Failure.isToldIn_of_fatal hfatal⟩
  | failed =>
    obtain rfl := Option.some.inj hfailure
    exact ⟨List.prefix_rfl, fun _ => by simp⟩
  | ended _ _ hbelow _ ih =>
    obtain rfl := Option.some.inj hfailure
    -- The failure is not that of the step itself, so a step inside has told it.
    have htold := ((ih rfl).resolve_left hbelow.2).2
    exact ⟨hbelow.1, htold.mono (List.subset_cons_self _ _)⟩
  | tooDeep hfatal =>
    obtain rfl := Option.some.inj hfailure
    exact ⟨List.prefix_rfl, fun hordinary => absurd hfatal (by simp [hordinary]), Failure.isToldIn_of_fatal hfatal⟩
  | entered _ ih =>
    obtain ⟨hbelow, htold⟩ := ih hfailure
    exact ⟨hbelow.1, fun _ => hbelow, htold⟩
  | stopped _ ih => exact (ih hfailure).imp_left Path.below_of_index
  | next _ _ _ ih => exact (ih hfailure).imp_right (·.prepend _)
  | own =>
    obtain rfl := Option.some.inj hfailure
    exact .inl rfl
  | transform =>
    obtain ⟨_, -, rfl⟩ := Option.map_eq_some_iff.mp hfailure
    exact .inl rfl
  | whenTrue _ ih | whenFalse _ ih | loop _ ih =>
    obtain ⟨hin, -, htold⟩ := ih hfailure
    exact .inr ⟨Path.below_of_key hin, htold⟩
  | lastRound _ ih => exact ih hfailure
  | nextRound _ _ _ ih => exact (ih hfailure).imp_right fun h => h.imp_right (·.prepend _)
  | tooDeepBranches hfatal =>
    obtain rfl := Option.some.inj hfailure
    exact .inr ⟨Path.below_of_key List.prefix_rfl, Failure.isToldIn_of_fatal hfatal⟩
  | parallel _ ih => exact .inr ((ih hfailure).imp_left (·.widen (List.prefix_append _ _)))
  | branch _ _ hall ihfirst ihmore =>
    rcases Failure.eq_of_graver hfailure with hfirst | hmore
    · exact (ihfirst hfirst).imp Path.below_of_index (·.mono hall.left_subset)
    · exact (ihmore hmore).imp_right (·.mono hall.right_subset)
  | unrecovered _ _ ih =>
    obtain ⟨hin, -, htold⟩ := ih hfailure
    exact ⟨Path.below_of_key hin, htold⟩
  | recovered _ _ _ _ _ _ ih =>
    obtain ⟨hin, -, htold⟩ := ih hfailure
    exact ⟨Path.below_of_key hin, (htold.mono (List.subset_cons_self _ _)).prepend _⟩
  | unensured _ _ ih => exact .inr (ih hfailure)
  | ensured _ _ _ ihguarded ihlast =>
    rcases Option.or_eq_some_iff.mp hfailure with hlast | ⟨-, hguarded⟩
    · obtain ⟨hin, -, htold⟩ := ihlast hlast
      exact .inr ⟨Path.below_of_key hin, htold.prepend _⟩
    · exact .inr ((ihguarded hguarded).imp_right (·.extend _))
  | subPipeline _ ih =>
    obtain ⟨hin, -, htold⟩ := ih hfailure
    exact .inr ⟨Path.below_of_key ((List.prefix_append _ _).trans hin), htold⟩

/-- A list of a step is not about the step itself. -/
theorem never_recovery {steps : List Step} {step : Path} {part : Key} {depth : Nat}
    (h : Trace (.list steps (step.key part) depth) told ending) : ∀ event ∈ told, ¬ event.IsRecoveryAt step :=
  fun event hevent => (h.holds event hevent).isWithin.below_of_key.not_recovery

theorem recoversOnce_guarded {attempt : List Step} {recovery : Option (List Step)} {path : Path} {depth : Nat}
    (h : Trace (.guarded attempt recovery path depth) told ending) : RecoversOnce path told := by
  cases h with
  | unrecovered htried => exact .of_never htried.never_recovery
  | recovered htried _ _ _ hcaught =>
    refine RecoversOnce.prepend (List.pairwise_cons.mpr ⟨?_, ?_⟩) htried.never_recovery
    · exact fun event hevent _ => hcaught.never_recovery event hevent
    · exact RecoversOnce.of_never hcaught.never_recovery

theorem recoversOnce_kind {s : Step} {path : Path} {depth : Nat} (h : Trace (.kind s path depth) told ending) :
    RecoversOnce path told := by
  have hinside : ∀ event ∈ told, event.IsInside s path := h.holds
  have hnever (hkind : s.kind ≠ .tryCatch) : RecoversOnce path told :=
    .of_never fun event hevent => ((hinside event hevent).resolve_right fun h => hkind h.1).not_recovery
  cases h with
  | unensured hguarded => exact recoversOnce_guarded hguarded
  | ensured hguarded _ hlast => exact (recoversOnce_guarded hguarded).extend hlast.never_recovery
  | own => exact .nil
  | _ => exact hnever nofun

/-- However a step ends, it has gone on at most once after a failure inside it. -/
theorem recoversOnce {s : Step} {path : Path} {depth : Nat} (h : Trace (.step s path depth) told ending) :
    RecoversOnce path told := by
  have hwhole {inner closing : List (Event Path)} (h : RecoversOnce path inner)
      (hclosing : ∀ event ∈ closing, ¬ event.IsRecoveryAt path) :
      RecoversOnce path (.stepStarted path s.kind s.describe depth :: (inner ++ closing)) :=
    (h.extend hclosing).prepend (List.forall_mem_singleton.mpr fun ⟨_, _, h⟩ => nomatch h)
  cases h with
  | refused => exact .nil
  | completed hkind => exact hwhole hkind.recoversOnce_kind (List.forall_mem_singleton.mpr fun ⟨_, _, h⟩ => nomatch h)
  | failed hkind => exact hwhole hkind.recoversOnce_kind (List.forall_mem_singleton.mpr fun ⟨_, _, h⟩ => nomatch h)
  | ended hkind =>
    have h := hwhole hkind.recoversOnce_kind (List.forall_mem_nil _)
    rwa [List.append_nil] at h

end Trace

end Pipewright
