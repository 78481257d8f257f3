import Pipewright.Proofs.OutlinePlaces

/-!
# Where steps are declared

The lists of steps that stand in a list, at all levels, and the steps in them, each with the place where it stands and
its depth. What stands there has an entry in the outline.
-/
namespace Pipewright

/-- A list of steps, where it stands and how deep. -/
structure PlacedList where
  steps : List Step
  path : Path
  depth : Nat

namespace PlacedList

/-- A list stands in another one if it is that list, or one of the lists of a step that stands there. -/
inductive Within (outer : PlacedList) : PlacedList → Prop where
  | self : Within outer outer
  | inside {inner : PlacedList} {i : Nat} {s : Step} {below : Path} {steps : List Step} : Within outer inner →
    inner.steps[i]? = some s → (below, steps) ∈ s.children →
    Within outer ⟨steps, inner.path.index i ++ below, inner.depth + 1⟩

/-- A step stands in a list, or in one of those inside it, at a place and a depth. -/
def HasStep (outer : PlacedList) (s : Step) (path : Path) (depth : Nat) : Prop :=
  ∃ inner i, outer.Within inner ∧ inner.steps[i]? = some s ∧ path = inner.path.index i ∧ depth = inner.depth

variable {outer inner : PlacedList} {s : Step} {path : Path} {depth : Nat}

theorem Within.hasStep (h : outer.Within inner) {i : Nat} (hs : inner.steps[i]? = some s) :
    outer.HasStep s (inner.path.index i) inner.depth :=
  ⟨inner, i, h, hs, rfl, rfl⟩

theorem HasStep.within (h : outer.HasStep s path depth) {below : Path} {steps : List Step}
    (hlist : (below, steps) ∈ s.children) : outer.Within ⟨steps, path ++ below, depth + 1⟩ := by
  obtain ⟨inner, i, hinner, hs, rfl, rfl⟩ := h
  exact hinner.inside hs hlist

/-- What the outline has for a list. -/
def entries (list : PlacedList) : List (OutlineEntry Path) := Step.outlineFrom list.path list.depth 0 list.steps

theorem outline_subset_outlineFrom {steps : List Step} {i j : Nat} (h : steps[j]? = some s) :
    s.outline (path.index (i + j)) depth ⊆ Step.outlineFrom path depth i steps := by
  induction steps generalizing i j with
  | nil => cases h
  | cons first rest ih =>
    cases j with
    | zero =>
      obtain rfl := Option.some.inj h
      exact List.subset_append_left _ _
    | succ j =>
      have hrest := ih (i := i + 1) (j := j) h
      rw [Nat.add_right_comm i 1 j] at hrest
      exact List.Subset.trans hrest (List.subset_append_right _ _)

theorem outline_subset_entries {i : Nat} (h : inner.steps[i]? = some s) :
    s.outline (inner.path.index i) inner.depth ⊆ inner.entries := by
  rw [← Nat.zero_add i]
  exact outline_subset_outlineFrom h

theorem Within.entries_subset (h : outer.Within inner) : inner.entries ⊆ outer.entries := by
  induction h with
  | self => exact List.Subset.refl _
  | inside _ hs hlist ih =>
    exact List.Subset.trans (Step.outlineFrom_subset hlist _ _) (List.Subset.trans (outline_subset_entries hs) ih)

theorem HasStep.outlineEntry_mem (h : outer.HasStep s path depth) : s.outlineEntry path depth ∈ outer.entries := by
  obtain ⟨inner, i, hinner, hs, rfl, rfl⟩ := h
  exact hinner.entries_subset (outline_subset_entries hs (Step.outlineEntry_mem s _ _))

end PlacedList

/-- The list of the steps of a pipeline. -/
def PipelineOf.top (pipeline : Pipeline) : PlacedList := ⟨pipeline.steps, Path.top, 0⟩

theorem PipelineOf.entries_top (pipeline : Pipeline) : pipeline.top.entries = pipeline.outline.entries :=
  (Step.outlineList_map_outline _ _ _).symm

end Pipewright
