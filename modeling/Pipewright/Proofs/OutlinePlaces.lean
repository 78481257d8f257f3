import Pipewright.Outline
import Pipewright.Proofs.StepInduction
import Pipewright.Proofs.TraceGrammar

/-!
# Places of an outline

The outline of a step is its own entry and those of the lists in it, each of which stands at a place of its own further
down. So the outline of a pipeline has one entry for each place at which a step is declared, and the place, or the text
of it, singles the entry out.
-/
namespace Pipewright

namespace Step

/-- The entries of the steps of a list, from position `i` on. -/
def outlineFrom (path : Path) (depth : Nat) : Nat → List Step → List (OutlineEntry Path)
  | _, [] => []
  | i, s :: rest => s.outline (path.index i) depth ++ outlineFrom path depth (i + 1) rest

theorem outlineList_map_outline (path : Path) (depth : Nat) (steps : List Step) :
    outlineList path depth (steps.map outline) = outlineFrom path depth 0 steps := by
  suffices hfrom : ∀ i, ((steps.map outline).zipIdx i).flatMap (fun entry =>
      entry.1 (path.index entry.2) depth) = outlineFrom path depth i steps from hfrom 0
  induction steps with
  | nil => exact fun _ => rfl
  | cons s rest ih =>
    intro i
    rw [List.map_cons, List.zipIdx_cons, List.flatMap_cons, ih, outlineFrom]

/-- A step has an entry of its own before those of the steps in its lists. -/
theorem outline_eq (s : Step) (path : Path) (depth : Nat) :
    s.outline path depth = s.outlineEntry path depth ::
      s.children.flatMap fun (below, steps) => outlineFrom (path ++ below) (depth + 1) 0 steps := by
  simp only [← outlineList_map_outline]
  rw [outline, fold_eq, List.flatMap_map]

theorem outlineEntry_mem (s : Step) (path : Path) (depth : Nat) :
    s.outlineEntry path depth ∈ s.outline path depth := by
  rw [outline_eq]
  exact List.mem_cons_self

/-- What the outline has for a list it has for the step at some position in it. -/
theorem exists_of_mem_outlineFrom {path : Path} {depth i : Nat} {steps : List Step} {entry : OutlineEntry Path}
    (h : entry ∈ outlineFrom path depth i steps) :
    ∃ (j : Nat) (s : Step), steps[j]? = some s ∧ entry ∈ s.outline (path.index (i + j)) depth := by
  induction steps generalizing i with
  | nil => cases h
  | cons s rest ih =>
    rcases List.mem_append.mp h with hfirst | hrest
    · exact ⟨0, s, rfl, hfirst⟩
    · obtain ⟨j, t, ht, hentry⟩ := ih hrest
      exact ⟨j + 1, t, ht, by rwa [Nat.add_assoc, Nat.add_comm 1 j] at hentry⟩

theorem mem_outlineFrom {path : Path} {depth i : Nat} {steps : List Step} {entry : OutlineEntry Path}
    (h : entry ∈ outlineFrom path depth i steps) :
    ∃ j, i ≤ j ∧ ∃ s ∈ steps, entry ∈ s.outline (path.index j) depth := by
  obtain ⟨j, s, hs, hentry⟩ := exists_of_mem_outlineFrom h
  exact ⟨i + j, Nat.le_add_right i j, s, List.mem_of_getElem? hs, hentry⟩

/-- The entries of the lists of a step are part of its outline. -/
theorem outlineFrom_subset {s : Step} {below : Path} {steps : List Step} (h : (below, steps) ∈ s.children)
    (path : Path) (depth : Nat) : outlineFrom (path ++ below) (depth + 1) 0 steps ⊆ s.outline path depth := by
  intro entry hentry
  rw [outline_eq]
  exact List.mem_cons_of_mem _ (List.mem_flatMap.mpr ⟨_, h, hentry⟩)

/-- A step is outlined at its place, and what is in it further down. -/
theorem outline_within (s : Step) (path : Path) (depth : Nat) :
    ∀ entry ∈ s.outline path depth, path <+: entry.path := by
  induction s using children_induction generalizing path depth with
  | h s ih =>
    rw [outline_eq]
    refine List.forall_mem_cons.mpr ⟨List.prefix_rfl, fun entry hentry => ?_⟩
    obtain ⟨list, hlist, hentry⟩ := List.mem_flatMap.mp hentry
    obtain ⟨j, -, t, ht, hentry⟩ := mem_outlineFrom hentry
    have hin := ih list hlist t ht ((path ++ list.1).index j) (depth + 1) entry hentry
    exact ((List.prefix_append _ _).trans (List.prefix_append _ _)).trans hin

theorem outlineFrom_within {path : Path} {depth i : Nat} {steps : List Step} {entry : OutlineEntry Path}
    (h : entry ∈ outlineFrom path depth i steps) : ∃ j, i ≤ j ∧ path.index j <+: entry.path := by
  obtain ⟨j, hj, s, -, hentry⟩ := mem_outlineFrom h
  exact ⟨j, hj, outline_within s _ depth entry hentry⟩

/-- Two lists of a step stand under different keys. -/
theorem children_parted (s : Step) : s.children.Pairwise fun list other =>
    ∃ part more : Key, part ≠ more ∧ list.1 = [.key part] ∧ other.1 = [.key more] := by
  have hkeys {part more : Key} (hne : part ≠ more) : ∃ k l : Key, k ≠ l ∧ [Selector.key part] = [.key k] ∧
      [Selector.key more] = [.key l] := ⟨part, more, hne, rfl, rfl⟩
  cases s with
  | ability | transform => exact .nil
  | loop | parallel | subPipeline => exact List.pairwise_singleton _ _
  | conditional => exact List.pairwise_pair.mpr (hkeys (by decide))
  | tryCatch attempt recovery always output =>
    cases recovery with
    | none => exact List.pairwise_pair.mpr (hkeys (by decide))
    | some steps =>
      refine List.pairwise_cons.mpr ⟨List.forall_mem_cons.mpr ⟨hkeys (by decide), ?_⟩, ?_⟩
      · exact List.forall_mem_singleton.mpr (hkeys (by decide))
      · exact List.pairwise_pair.mpr (hkeys (by decide))

/-- No place is in two lists of a step. -/
theorem children_apart (s : Step) (path : Path) :
    s.children.Pairwise fun list other => ∀ place, path ++ list.1 <+: place → ¬ path ++ other.1 <+: place := by
  refine (children_parted s).imp ?_
  rintro list other ⟨part, more, hne, hpart, hmore⟩ place h hother
  rw [hpart] at h
  rw [hmore] at hother
  exact hne (Path.key_unique h hother)

/-- Entries of which no two are about the same place. -/
def Apart (entries : List (OutlineEntry Path)) : Prop := entries.Pairwise fun entry other => entry.path ≠ other.path

theorem apart_outlineFrom {path : Path} {depth : Nat} {steps : List Step}
    (h : ∀ s ∈ steps, ∀ path depth, Apart (s.outline path depth)) (i : Nat) :
    Apart (outlineFrom path depth i steps) := by
  induction steps generalizing i with
  | nil => exact .nil
  | cons s rest ih =>
    refine List.pairwise_append.mpr ⟨h s List.mem_cons_self _ _, ?_, fun entry hentry other hother heq => ?_⟩
    · exact ih (fun t ht => h t (List.mem_cons_of_mem _ ht)) (i + 1)
    · have hi := outline_within s (path.index i) depth entry hentry
      obtain ⟨j, hj, hother⟩ := outlineFrom_within hother
      exact absurd (Path.index_unique (heq ▸ hi) hother) (by omega)

/-- The places of a step and of the steps in it are different ones. -/
theorem apart_outline (s : Step) (path : Path) (depth : Nat) : Apart (s.outline path depth) := by
  induction s using children_induction generalizing path depth with
  | h s ih =>
    have hbelow {list : Path × List Step} {entry : OutlineEntry Path}
        (hentry : entry ∈ outlineFrom (path ++ list.1) (depth + 1) 0 list.2) : entry.path.Below (path ++ list.1) := by
      obtain ⟨j, -, hin⟩ := outlineFrom_within hentry
      exact Path.below_of_index hin
    rw [outline_eq]
    -- The step against what is in it, then the entries of one list, then those of two lists.
    refine List.pairwise_cons.mpr ⟨fun entry hentry heq => ?_, List.pairwise_flatMap.mpr ⟨fun list hlist => ?_, ?_⟩⟩
    · obtain ⟨list, -, hentry⟩ := List.mem_flatMap.mp hentry
      exact ((hbelow hentry).widen (List.prefix_append _ _)).2 heq.symm
    · exact apart_outlineFrom (fun t ht path depth => ih list hlist t ht path depth) 0
    · refine (children_apart s path).imp fun hapart entry hentry other hother heq => ?_
      exact hapart entry.path (hbelow hentry).1 (heq ▸ (hbelow hother).1)

/-- Of entries of different places one is singled out by its place, and by the text of it. -/
theorem Apart.filter_eq {entries : List (OutlineEntry Path)} (h : Apart entries) {entry : OutlineEntry Path}
    (hentry : entry ∈ entries) :
    entries.filter (fun other => other.path.text = entry.path.text) = [entry] := by
  obtain ⟨before, after, rfl⟩ := List.append_of_mem hentry
  obtain ⟨-, hafter, hbefore⟩ := List.pairwise_append.mp h
  obtain ⟨hafter, -⟩ := List.pairwise_cons.mp hafter
  have hnone {others : List (OutlineEntry Path)} (h : ∀ other ∈ others, other.path ≠ entry.path) :
      others.filter (fun other => other.path.text = entry.path.text) = [] := by
    refine List.filter_eq_nil_iff.mpr fun other hother => ?_
    simpa [Path.text_inj] using h other hother
  rw [List.filter_append, List.filter_cons, hnone fun other hother => hbefore other hother entry List.mem_cons_self,
    hnone fun other hother => (hafter other hother).symm]
  simp

end Step

end Pipewright
