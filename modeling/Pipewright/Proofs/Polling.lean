import Pipewright.Run.Job

/-!
# Polling

What can be said of something that may have to wait, whatever goes on meanwhile: of each stretch of it, from one poll
to where it ends or waits next, and of all that it has done by the time that it ends. What two things do beside each
other is interleaved; each of them does its own part in order.
-/
namespace Pipewright

/-- A list that is made of two others, the elements of each in their order. -/
inductive Interleaved {α : Type} : List α → List α → List α → Prop where
  | nil : Interleaved [] [] []
  | left {a : α} {first second all : List α} :
    Interleaved first second all → Interleaved (a :: first) second (a :: all)
  | right {a : α} {first second all : List α} :
    Interleaved first second all → Interleaved first (a :: second) (a :: all)

namespace Interleaved

variable {α β : Type} {first second all first' second' all' : List α}

theorem left_only (first : List α) : Interleaved first [] first := by
  induction first with
  | nil => exact .nil
  | cons a rest ih => exact .left ih

theorem right_only (second : List α) : Interleaved [] second second := by
  induction second with
  | nil => exact .nil
  | cons a rest ih => exact .right ih

/-- What is interleaved one after the other is interleaved as a whole. -/
theorem append (h : Interleaved first second all) (h' : Interleaved first' second' all') :
    Interleaved (first ++ first') (second ++ second') (all ++ all') := by
  induction h with
  | nil => exact h'
  | left _ ih => exact .left ih
  | right _ ih => exact .right ih

/-- One list may come as a whole before the other. -/
theorem concat (first second : List α) : Interleaved first second (first ++ second) := by
  have h := (left_only first).append (right_only second)
  rwa [List.append_nil, List.nil_append] at h

theorem filterMap (h : Interleaved first second all) (f : α → Option β) :
    Interleaved (first.filterMap f) (second.filterMap f) (all.filterMap f) := by
  induction h with
  | nil => exact .nil
  | @left a _ _ _ _ ih =>
    cases hf : f a with
    | none => simpa [hf] using ih
    | some b => simpa [hf] using ih.left
  | @right a _ _ _ _ ih =>
    cases hf : f a with
    | none => simpa [hf] using ih
    | some b => simpa [hf] using ih.right

theorem perm (h : Interleaved first second all) : all.Perm (first ++ second) := by
  induction h with
  | nil => exact .nil
  | left _ ih => exact ih.cons _
  | right _ ih => exact (ih.cons _).trans List.perm_middle.symm

theorem mem_iff (h : Interleaved first second all) {a : α} : a ∈ all ↔ a ∈ first ∨ a ∈ second :=
  h.perm.mem_iff.trans List.mem_append

theorem left_subset (h : Interleaved first second all) : first ⊆ all := fun _ ha => h.mem_iff.mpr (.inl ha)

theorem right_subset (h : Interleaved first second all) : second ⊆ all := fun _ ha => h.mem_iff.mpr (.inr ha)

end Interleaved

namespace Progress

variable {α β : Type} {P : Meter → List Moment → Meter → Prop}

@[simp] theorem after_after (past more : List Moment) (p : Progress α) :
    (p.after more).after past = p.after (past ++ more) := by
  cases p <;> simp [after]

@[simp] theorem andThen_after (past : List Moment) (p : Progress α) (next : α → Meter → Progress β) :
    (p.after past).andThen next = (p.andThen next).after past := by
  cases p with
  | ended => exact (after_after _ _ _).symm
  | waiting => rfl

@[simp] theorem map_after (past : List Moment) (p : Progress α) (f : α → β) :
    (p.after past).map f = (p.map f).after past := by
  cases p <;> rfl

@[simp] theorem map_meter (p : Progress α) (f : α → β) : (p.map f).meter = p.meter := by
  cases p <;> rfl

/-! ### Each stretch -/

/-- Whatever the meter shows when it is polled, what it does until it ends or waits has a property. -/
inductive Each (P : Meter → List Moment → Meter → Prop) : Meter → Progress α → Prop where
  | ended {before meter : Meter} {log : List Moment} (a : α) : P before log meter → Each P before (.ended a meter log)
  | waiting {before meter : Meter} {log : List Moment} {resume : Meter → Progress α} :
    P before log meter → (∀ next, Each P next (resume next)) → Each P before (.waiting meter log resume)

/-- A property of stretches that a stretch has if it is put together from stretches that have it. -/
structure Accrues (P : Meter → List Moment → Meter → Prop) : Prop where
  nil : ∀ meter, P meter [] meter
  append : ∀ {before between after : Meter} {first second : List Moment}, P before first between →
    P between second after → P before (first ++ second) after

namespace Each

variable {before meter : Meter} {log : List Moment} {p : Progress α}

theorem mono {Q : Meter → List Moment → Meter → Prop} (h : Each P before p)
    (hPQ : ∀ before log after, P before log after → Q before log after) : Each Q before p := by
  induction h with
  | ended a h => exact .ended a (hPQ _ _ _ h)
  | waiting h _ ih => exact .waiting (hPQ _ _ _ h) ih

theorem map (h : Each P before p) (f : α → β) : Each P before (p.map f) := by
  induction h with
  | ended a h => exact .ended (f a) h
  | waiting h _ ih => exact .waiting h ih

variable (law : Accrues P)

include law

theorem after {past : List Moment} (hpast : P before past meter) (h : Each P meter p) :
    Each P before (p.after past) := by
  cases h with
  | ended a h => exact .ended a (law.append hpast h)
  | waiting h hresume => exact .waiting (law.append hpast h) hresume

theorem andThen {next : α → Meter → Progress β} (h : Each P before p)
    (hnext : ∀ a meter, Each P meter (next a meter)) : Each P before (p.andThen next) := by
  induction h with
  | ended a h => exact (hnext a _).after law h
  | waiting h _ ih => exact .waiting h ih

/-- Two things beside each other take turns, so what each of them does in its turns is what is done. -/
theorem beside {other : Progress β} (h : Each P before p) (hother : Each P p.meter other) :
    Each P before (p.beside other) := by
  induction h generalizing other with
  | ended a h =>
    cases hother with
    | ended b hother => exact .ended (a, b) (law.append h hother)
    | waiting hother hresume => exact .waiting (law.append h hother) fun next => (hresume next).map _
  | waiting h hresume ih =>
    cases hother with
    | ended b hother => exact .waiting (law.append h hother) fun next => (hresume next).map _
    | waiting hother hresume' => exact .waiting (law.append h hother) fun next => ih next (hresume' _)

/-- What is done when nothing else goes on meanwhile. -/
theorem finish {p : Progress (Except Failure α × Scope)} (h : Each P before p) :
    P before p.finish.log p.finish.meter := by
  induction h with
  | ended ended h => exact h
  | waiting h _ ih => exact law.append h (ih _)

end Each

/-! ### All that is done until the end -/

/-- It can end with a value when it has done this, whatever the meter shows each time that it is polled again. -/
inductive Comes : Progress α → List Moment → α → Prop where
  | ended (a : α) (meter : Meter) (log : List Moment) : Comes (.ended a meter log) log a
  | waiting {a : α} {meter : Meter} {log later : List Moment} {resume : Meter → Progress α} (next : Meter) :
    Comes (resume next) later a → Comes (.waiting meter log resume) (log ++ later) a

namespace Comes

variable {p : Progress α} {log : List Moment} {a : α} {b : β}

theorem of_after {past : List Moment} (h : (p.after past).Comes log a) :
    ∃ later, log = past ++ later ∧ p.Comes later a := by
  cases p with
  | ended =>
    cases h
    exact ⟨_, rfl, .ended _ _ _⟩
  | waiting =>
    cases h with
    | waiting next h => exact ⟨_, List.append_assoc _ _ _, .waiting next h⟩

theorem of_andThen {next : α → Meter → Progress β} (h : (p.andThen next).Comes log b) :
    ∃ first a meter second, p.Comes first a ∧ (next a meter).Comes second b ∧ log = first ++ second := by
  induction p generalizing log with
  | ended a meter first =>
    obtain ⟨second, rfl, hsecond⟩ := h.of_after
    exact ⟨first, a, meter, second, .ended a meter first, hsecond, rfl⟩
  | waiting _ log' _ ih =>
    cases h with
    | waiting polled h =>
      obtain ⟨first, a, meter, second, hfirst, hsecond, rfl⟩ := ih polled h
      exact ⟨log' ++ first, a, meter, second, .waiting polled hfirst, hsecond, (List.append_assoc _ _ _).symm⟩

theorem of_map {f : α → β} (h : (p.map f).Comes log b) : ∃ a, p.Comes log a ∧ f a = b := by
  induction p generalizing log with
  | ended a meter first =>
    cases h
    exact ⟨a, .ended a meter first, rfl⟩
  | waiting _ _ _ ih =>
    cases h with
    | waiting polled h =>
      obtain ⟨a, ha, hb⟩ := ih polled h
      exact ⟨a, .waiting polled ha, hb⟩

/-- What two things do beside each other is what each of them does, interleaved. -/
theorem of_beside {other : Progress β} {pair : α × β} (h : (p.beside other).Comes log pair) :
    ∃ first second, p.Comes first pair.1 ∧ other.Comes second pair.2 ∧ Interleaved first second log := by
  induction p generalizing other log with
  | ended a meter first =>
    cases other with
    | ended b meter' second =>
      cases h
      exact ⟨first, second, .ended a meter first, .ended b meter' second, .concat first second⟩
    | waiting meter' second resume =>
      cases h with
      | @waiting _ _ _ later _ polled h =>
        obtain ⟨b, hb, rfl⟩ := h.of_map
        refine ⟨first, second ++ later, .ended a meter first, .waiting polled hb, ?_⟩
        rw [List.append_assoc]
        exact .concat _ _
  | waiting meter first resume ih =>
    cases other with
    | ended b meter' second =>
      cases h with
      | @waiting _ _ _ later _ polled h =>
        obtain ⟨a, ha, rfl⟩ := h.of_map
        refine ⟨first ++ later, second, .waiting polled ha, .ended b meter' second, ?_⟩
        have hlater := (Interleaved.concat first second).append (.left_only later)
        rwa [List.append_nil] at hlater
    | waiting meter' second resume' =>
      cases h with
      | waiting polled h =>
        obtain ⟨more, more', hmore, hmore', hlater⟩ := ih polled h
        exact ⟨first ++ more, second ++ more', .waiting polled hmore, .waiting _ hmore',
          (Interleaved.concat first second).append hlater⟩

/-- So it ends when nothing else goes on meanwhile. -/
theorem finish (p : Progress (Except Failure α × Scope)) : p.Comes p.finish.log (p.finish.outcome, p.finish.scope) := by
  induction p with
  | ended ended meter log => exact .ended ended meter log
  | waiting meter log resume ih => exact .waiting meter (ih meter)

end Comes

end Progress

end Pipewright
