import Pipewright.Proofs.Narration
import Pipewright.Proofs.OutlinePlaces

/-!
# Runs keep to the outline

What a run executes is what the outline of its pipeline lists: a step starts where its entry stands and as its entry
describes it, and it starts again only in another round of a loop around it.
-/
namespace Pipewright

theorem Path.key_key (path : Path) (k l : Key) : (path.key k).key l = path ++ [.key k, .key l] :=
  List.append_assoc path [.key k] [.key l]

/-- The event of the start of a step, as the outline foretells it. -/
def OutlineEntry.start (entry : OutlineEntry Path) : Event Path :=
  .stepStarted entry.path entry.kind entry.summary entry.depth

/-- Where a step starts. -/
def Event.started? : Event Path → Option Path
  | .stepStarted path .. => some path
  | _ => none

/-- Where steps start, oldest first. -/
def startsIn (told : List (Event Path)) : List Path := told.filterMap Event.started?

theorem Event.place?_of_started {event : Event Path} {place : Path} (h : event.started? = some place) :
    event.place? = some place := by
  cases event with
  | stepStarted => exact h
  | _ => cases h

theorem Event.IsWithin.of_started {event : Event Path} {upper place : Path} (h : event.IsWithin upper)
    (hstarted : event.started? = some place) : upper <+: place := by
  obtain ⟨inner, hinner, hin⟩ := h
  have hplace := Option.some.inj (hinner.symm.trans (place?_of_started hstarted))
  exact hplace ▸ hin

@[simp] theorem startsIn_append (first more : List (Event Path)) :
    startsIn (first ++ more) = startsIn first ++ startsIn more :=
  List.filterMap_append

theorem count_startsIn_eq_zero {told : List (Event Path)} {place : Path}
    (h : ∀ event ∈ told, event.started? ≠ some place) : (startsIn told).count place = 0 := by
  refine List.count_eq_zero.mpr fun hmem => ?_
  obtain ⟨event, hevent, hstarted⟩ := List.mem_filterMap.mp hmem
  exact h event hevent hstarted

/-- What the outline has for a part of a pipeline. -/
def Part.entries : Part → List (OutlineEntry Path)
  | .step s path depth | .kind s path depth => s.outline path depth
  | .list steps path depth | .rounds steps path depth => Step.outlineFrom path depth 0 steps
  | .rest steps path depth i | .branches steps path depth i => Step.outlineFrom path depth i steps
  | .guarded attempt recovery path depth =>
    Step.outlineFrom (path.key .trySteps) (depth + 1) 0 attempt ++
      Step.outlineFrom (path.key .catchSteps) (depth + 1) 0 (recovery.getD [])

/-- No loop among some entries is around a place. -/
def OutsideLoops (place : Path) (entries : List (OutlineEntry Path)) : Prop :=
  ∀ entry ∈ entries, entry.kind = .loop → ¬ place.Below entry.path

theorem OutsideLoops.mono {place : Path} {entries more : List (OutlineEntry Path)} (h : OutsideLoops place more)
    (hsub : entries ⊆ more) : OutsideLoops place entries :=
  fun entry hentry => h entry (hsub hentry)

/-- A place is neither among the rounds of a loop nor within a loop of any other part. -/
def Part.OutsideLoops (place : Path) : Part → Prop
  | .rounds _ path _ => ¬ path <+: place
  | part => Pipewright.OutsideLoops place part.entries

/-- If the event tells of the start of a step, one of the entries foretells it. -/
def Event.IsPlannedBy (event : Event Path) (entries : List (OutlineEntry Path)) : Prop :=
  ∀ place, event.started? = some place → ∃ entry ∈ entries, event = entry.start

theorem Event.IsPlannedBy.mono {event : Event Path} {entries more : List (OutlineEntry Path)}
    (h : event.IsPlannedBy entries) (hsub : entries ⊆ more) : event.IsPlannedBy more := by
  intro place hplace
  obtain ⟨entry, hentry, heq⟩ := h place hplace
  exact ⟨entry, hsub hentry, heq⟩

namespace Trace

open Step

variable {part : Part} {told : List (Event Path)} {ending : Option Failure}

section

variable {s : Step} {path : Path} {depth : Nat}

/-- A step starts as its own entry foretells, and the steps in it as theirs do. -/
theorem planned_step {inner closing : List (Event Path)}
    (hinner : ∀ event ∈ inner, event.IsPlannedBy (s.outline path depth))
    (hclosing : ∀ event ∈ closing, event.started? = none) :
    ∀ event ∈ .stepStarted path s.kind s.describe depth :: (inner ++ closing),
      event.IsPlannedBy (s.outline path depth) := by
  refine List.forall_mem_cons.mpr ⟨fun _ _ => ⟨_, outlineEntry_mem s path depth, rfl⟩, ?_⟩
  refine List.forall_mem_append.mpr ⟨hinner, fun event hevent place hplace => ?_⟩
  rw [hclosing event hevent] at hplace
  cases hplace

/-- The lists of a step start as the outline of the step foretells. -/
theorem planned_list {below : Path} {steps : List Step} (h : (below, steps) ∈ s.children)
    (hlist : ∀ event ∈ told, event.IsPlannedBy (outlineFrom (path ++ below) (depth + 1) 0 steps)) :
    ∀ event ∈ told, event.IsPlannedBy (s.outline path depth) :=
  fun event hevent => (hlist event hevent).mono (outlineFrom_subset h path depth)

theorem entries_guarded_subset (attempt always : List Step) (recovery : Option (List Step)) (output : Option String) :
    (Part.guarded attempt recovery path depth).entries ⊆
      (Step.tryCatch attempt recovery always output).outline path depth := by
  refine List.append_subset.mpr ⟨outlineFrom_subset List.mem_cons_self path depth, ?_⟩
  cases recovery with
  | none => exact List.nil_subset _
  | some steps => exact outlineFrom_subset (List.mem_cons_of_mem _ List.mem_cons_self) path depth

end

/-- What starts has been outlined. -/
theorem planned (h : Trace part told ending) : ∀ event ∈ told, event.IsPlannedBy part.entries := by
  induction h with
  | refused | tooDeep | nothingLeft | own | ability | transform | skipped | noRound | tooDeepBranches | noBranch =>
    exact nofun
  | completed _ _ ih => exact planned_step ih (List.forall_mem_singleton.mpr rfl)
  | failed _ _ ih => exact planned_step ih (List.forall_mem_singleton.mpr rfl)
  | @ended _ _ _ inner _ _ _ _ _ ih =>
    rw [← List.append_nil inner]
    exact planned_step ih nofun
  | entered _ ih => exact ih
  | stopped _ ih => exact fun event hevent => (ih event hevent).mono (List.subset_append_left _ _)
  | next _ _ ihfirst ihmore =>
    refine List.forall_mem_append.mpr ⟨fun event hevent => ?_, fun event hevent => ?_⟩
    · exact (ihfirst event hevent).mono (List.subset_append_left _ _)
    · exact (ihmore event hevent).mono (List.subset_append_right _ _)
  | branch _ _ hall ihfirst ihmore =>
    intro event hevent
    rcases hall.mem_iff.mp hevent with hevent | hevent
    · exact (ihfirst event hevent).mono (List.subset_append_left _ _)
    · exact (ihmore event hevent).mono (List.subset_append_right _ _)
  | whenTrue _ ih => exact planned_list List.mem_cons_self ih
  | whenFalse _ ih => exact planned_list (List.mem_cons_of_mem _ List.mem_cons_self) ih
  | loop _ ih => exact planned_list List.mem_cons_self ih
  | lastRound _ ih => exact ih
  | nextRound _ _ ihfirst ihmore => exact List.forall_mem_append.mpr ⟨ihfirst, ihmore⟩
  | parallel _ ih => exact planned_list List.mem_cons_self ih
  | unrecovered _ _ ih => exact fun event hevent => (ih event hevent).mono (List.subset_append_left _ _)
  | recovered _ _ _ _ _ ihtried ihcaught =>
    refine List.forall_mem_append.mpr ⟨fun event hevent => ?_, List.forall_mem_cons.mpr ⟨nofun, ?_⟩⟩
    · exact (ihtried event hevent).mono (List.subset_append_left _ _)
    · exact fun event hevent => (ihcaught event hevent).mono (List.subset_append_right _ _)
  | unensured _ _ ih => exact fun event hevent => (ih event hevent).mono (entries_guarded_subset _ _ _ _)
  | ensured _ _ _ ihguarded ihlast =>
    refine List.forall_mem_append.mpr ⟨fun event hevent => ?_, ?_⟩
    · exact (ihguarded event hevent).mono (entries_guarded_subset _ _ _ _)
    · exact planned_list (List.mem_append_right _ List.mem_cons_self) ihlast
  | @subPipeline _ _ _ path _ _ _ _ ih =>
    exact planned_list List.mem_cons_self (Path.key_key path .pipeline .steps ▸ ih)

/-- What is told of other places starts nothing at a place. -/
theorem never_started {upper place : Path} (h : ∀ event ∈ told, event.IsWithin upper) (hout : ¬ upper <+: place) :
    ∀ event ∈ told, event.started? ≠ some place :=
  fun event hevent hstarted => hout ((h event hevent).of_started hstarted)

theorem never_started_below {upper place : Path} (h : ∀ event ∈ told, event.IsBelow upper)
    (hout : ¬ upper <+: place) : ∀ event ∈ told, event.started? ≠ some place :=
  never_started (fun event hevent => (h event hevent).isWithin) hout

/-- A step does not start within itself. -/
theorem count_step_le_one {s : Step} {path place : Path} {depth : Nat} {inner closing : List (Event Path)}
    (hinside : ∀ event ∈ inner, event.IsInside s path) (hinner : (startsIn inner).count place ≤ 1)
    (hclosing : ∀ event ∈ closing, event.started? = none) :
    (startsIn (.stepStarted path s.kind s.describe depth :: (inner ++ closing))).count place ≤ 1 := by
  have hends : startsIn closing = [] := List.filterMap_eq_nil_iff.mpr hclosing
  change (path :: startsIn (inner ++ closing)).count place ≤ 1
  rw [startsIn_append, hends, List.append_nil]
  by_cases hpath : path = place
  · have hnone : ∀ event ∈ inner, event.started? ≠ some place := by
      intro event hevent hstarted
      rcases hinside event hevent with ⟨upper, hupper, hbelow⟩ | ⟨-, _, _, rfl⟩
      · have hplace := Option.some.inj (hupper.symm.trans (Event.place?_of_started hstarted))
        exact hbelow.2 (hplace.trans hpath.symm)
      · cases hstarted
    rw [List.count_cons, count_startsIn_eq_zero hnone]
    split <;> omega
  · rw [List.count_cons_of_ne hpath]
    exact hinner

/-- A place has its turn in one of two tellings if nothing starts there in the other. -/
theorem count_append_le_one {place : Path} {first more : List (Event Path)}
    (hfirst : (startsIn first).count place ≤ 1) (hmore : (startsIn more).count place ≤ 1)
    (hapart : (∀ event ∈ first, event.started? ≠ some place) ∨ ∀ event ∈ more, event.started? ≠ some place) :
    (startsIn (first ++ more)).count place ≤ 1 := by
  rw [startsIn_append, List.count_append]
  rcases hapart with hnone | hnone
  · rw [count_startsIn_eq_zero hnone]
    omega
  · rw [count_startsIn_eq_zero hnone]
    omega

/-- A place is within a step of a list or within the ones after it, but not within both. -/
theorem count_neighbours_le_one {s : Step} {path place : Path} {depth i : Nat} {first more : List (Event Path)}
    {ending : Option Failure} (hfirst : Trace (.step s (path.index i) depth) first ending)
    (hmore : ∀ event ∈ more, ∃ j, i + 1 ≤ j ∧ event.IsWithin (path.index j))
    (honce : (startsIn first).count place ≤ 1) (hrest : (startsIn more).count place ≤ 1) :
    (startsIn (first ++ more)).count place ≤ 1 := by
  refine count_append_le_one honce hrest ?_
  by_cases hin : path.index i <+: place
  · refine .inr fun event hevent hstarted => ?_
    obtain ⟨j, hj, hwithin⟩ := hmore event hevent
    exact absurd (Path.index_unique hin (hwithin.of_started hstarted)) (by omega)
  · exact .inl (never_started hfirst.holds hin)

/-- Outside of loops steps start once. -/
theorem count_startsIn_le_one (h : Trace part told ending) {place : Path} (hloops : part.OutsideLoops place) :
    (startsIn told).count place ≤ 1 := by
  induction h with
  | refused | tooDeep | nothingLeft | own | ability | transform | skipped | noRound | tooDeepBranches | noBranch =>
    exact Nat.zero_le _
  | completed _ hinside ih => exact count_step_le_one hinside (ih hloops) (List.forall_mem_singleton.mpr rfl)
  | failed _ hinside ih => exact count_step_le_one hinside (ih hloops) (List.forall_mem_singleton.mpr rfl)
  | @ended _ _ _ inner _ _ hinside _ _ ih =>
    rw [← List.append_nil inner]
    exact count_step_le_one hinside (ih hloops) nofun
  | entered _ ih => exact ih hloops
  | stopped _ ih => exact ih (hloops.mono (List.subset_append_left _ _))
  | next hfirst hmore ihfirst ihmore =>
    exact count_neighbours_le_one hfirst hmore.holds (ihfirst (hloops.mono (List.subset_append_left _ _)))
      (ihmore (hloops.mono (List.subset_append_right _ _)))
  | branch hfirst hmore hall ihfirst ihmore =>
    rw [startsIn, (hall.perm.filterMap _).count_eq]
    exact count_neighbours_le_one hfirst hmore.holds (ihfirst (hloops.mono (List.subset_append_left _ _)))
      (ihmore (hloops.mono (List.subset_append_right _ _)))
  | whenTrue _ ih => exact ih (hloops.mono (outlineFrom_subset List.mem_cons_self _ _))
  | whenFalse _ ih => exact ih (hloops.mono (outlineFrom_subset (List.mem_cons_of_mem _ List.mem_cons_self) _ _))
  | loop _ ih =>
    -- The place is in no loop, so whatever the rounds of this one start is elsewhere.
    have hown := hloops _ (outlineEntry_mem _ _ _) rfl
    exact ih fun hin => hown (Path.below_of_key hin)
  | lastRound hlist =>
    have hnone := never_started_below hlist.holds hloops
    rw [count_startsIn_eq_zero hnone]
    exact Nat.zero_le 1
  | nextRound hfirst hmore =>
    have hnone := never_started_below (nextRound hfirst hmore).holds hloops
    rw [count_startsIn_eq_zero hnone]
    exact Nat.zero_le 1
  | parallel _ ih => exact ih (hloops.mono (outlineFrom_subset List.mem_cons_self _ _))
  | unrecovered _ _ ih => exact ih (hloops.mono (List.subset_append_left _ _))
  | @recovered _ _ path _ _ _ _ _ htried _ _ _ hcaught ihtried ihcaught =>
    refine count_append_le_one (ihtried (hloops.mono (List.subset_append_left _ _)))
      (ihcaught (hloops.mono (List.subset_append_right _ _))) ?_
    by_cases hin : path.key .trySteps <+: place
    · have hcatch : ¬ path.key .catchSteps <+: place := fun h => absurd (Path.key_unique hin h) (by decide)
      have hnone := never_started_below hcaught.holds hcatch
      exact .inr (List.forall_mem_cons.mpr ⟨nofun, hnone⟩)
    · exact .inl (never_started_below htried.holds hin)
  | unensured _ _ ih => exact ih (hloops.mono (entries_guarded_subset _ _ _ _))
  | @ensured _ _ _ _ path _ _ _ _ _ hguarded _ hlast ihguarded ihlast =>
    refine count_append_le_one (ihguarded (hloops.mono (entries_guarded_subset _ _ _ _)))
      (ihlast (hloops.mono (outlineFrom_subset (List.mem_append_right _ List.mem_cons_self) _ _))) ?_
    by_cases hin : path.key .finallySteps <+: place
    · refine .inl fun event hevent hstarted => ?_
      rcases hguarded.holds event hevent with htried | hcaught | ⟨_, _, rfl⟩
      · exact absurd (Path.key_unique hin (htried.of_started hstarted)) (by decide)
      · exact absurd (Path.key_unique hin (hcaught.of_started hstarted)) (by decide)
      · cases hstarted
    · exact .inr (never_started_below hlast.holds hin)
  | @subPipeline _ _ _ path _ _ _ _ ih =>
    refine ih (hloops.mono ?_)
    rw [Path.key_key]
    exact outlineFrom_subset List.mem_cons_self _ _

end Trace

namespace Engine

/-- A step that a run starts has exactly one entry in the outline of the pipeline, which foretells where it starts, of
what kind it is, what it does and how deep it is nested. A step that is in no loop starts at most once. -/
theorem runPipeline_planned (engine : Engine) (pipeline : Pipeline) (context : Value) (clock : Clock) :
    let report := engine.runPipeline pipeline context clock
    let entries := pipeline.outline.entries
    (∀ place kind description depth, .stepStarted place kind description depth ∈ report.events →
      ∃ entry, entries.filter (fun other => other.path.text = place.text) = [entry] ∧
        entry.path = place ∧ entry.kind = kind ∧ entry.summary = description ∧ entry.depth = depth) ∧
    ∀ place : Path, (∀ entry ∈ entries, entry.kind = .loop → ¬ place.Below entry.path) →
      (startsIn report.events).countP (fun started => started.text = place.text) ≤ 1 := by
  intro report entries
  let told := eventsIn (engine.runTop pipeline context clock).log
  have htrace := trace_runTop engine pipeline context clock
  have hevents : report.events = _ := events_runPipeline engine pipeline context clock
  have hentries : entries = Step.outlineFrom Path.top 0 0 pipeline.steps := Step.outlineList_map_outline _ _ _
  have hapart : Step.Apart entries :=
    hentries ▸ Step.apart_outlineFrom (fun s _ => Step.apart_outline s) 0
  refine ⟨fun place kind description depth hstarted => ?_, fun place hloops => ?_⟩
  · have htold : .stepStarted place kind description depth ∈ told := by
      rw [hevents] at hstarted
      simpa using hstarted
    obtain ⟨entry, hentry, heq⟩ := htrace.planned _ htold place rfl
    obtain ⟨rfl, rfl, rfl, rfl⟩ : place = entry.path ∧ kind = entry.kind ∧ description = entry.summary ∧
        depth = entry.depth := by simpa [OutlineEntry.start] using heq
    exact ⟨entry, hapart.filter_eq (hentries ▸ hentry), rfl, rfl, rfl, rfl⟩
  · have hstarts : startsIn report.events = startsIn told := by
      rw [hevents, ← List.cons_append, startsIn_append]
      exact List.append_nil _
    have hcount : (fun started : Path => decide (started.text = place.text)) = (· == place) :=
      funext fun started => Bool.eq_iff_iff.mpr (by rw [decide_eq_true_eq, beq_iff_eq, Path.text_inj])
    have houtside : OutsideLoops place (Step.outlineFrom Path.top 0 0 pipeline.steps) := hentries ▸ hloops
    have honce : (startsIn told).count place ≤ 1 := htrace.count_startsIn_le_one houtside
    rwa [hstarts, hcount]

/-- Both rounds of a loop start the step in it, which has one entry nevertheless; the loop itself starts once. -/
theorem runPipeline_planned_of_loop :
    let idle : Step := .conditional (.list []) [] [] none
    let pipeline : Pipeline := ⟨none, none, [.loop (.arr [.null, .null]) [idle] "item" none none none], none, none⟩
    let report := runPipeline ⟨.none, .builtin, .standard⟩ pipeline .null
    let loop := Path.top.index 0
    let body := (loop.key .steps).index 0
    startsIn report.events = [loop, body, body] ∧
    (∃ entry, pipeline.outline.entries.filter (fun other => other.path.text = body.text) = [entry] ∧
      entry.path = body) ∧
    (startsIn report.events).countP (fun started => started.text = loop.text) ≤ 1 := by
  intro idle pipeline report loop body
  obtain ⟨hplanned, honce⟩ := runPipeline_planned ⟨.none, .builtin, .standard⟩ pipeline .null .still
  have hstarts : startsIn report.events = [loop, body, body] := by decide +kernel
  have hbody : body ∈ startsIn report.events := hstarts ▸ List.mem_cons_of_mem _ List.mem_cons_self
  obtain ⟨event, hevent, hstarted⟩ := List.mem_filterMap.mp hbody
  have hentry : ∃ entry, pipeline.outline.entries.filter (fun other => other.path.text = body.text) = [entry] ∧
      entry.path = body := by
    cases event with
    | stepStarted place kind description depth =>
      obtain rfl := Option.some.inj hstarted
      obtain ⟨entry, hfilter, hpath, -⟩ := hplanned _ kind description depth hevent
      exact ⟨entry, hfilter, hpath⟩
    | _ => cases hstarted
  have houtside : ∀ entry ∈ pipeline.outline.entries, entry.kind = .loop → ¬ loop.Below entry.path := by
    decide +kernel
  exact ⟨hstarts, hentry, honce loop houtside⟩

end Engine

end Pipewright
