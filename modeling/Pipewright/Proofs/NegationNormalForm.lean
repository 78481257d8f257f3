import Pipewright.Condition

/-!
# Negations in conditions

An `and` goes on until a condition in it is false, an `or` until one is true, and a negation turns the verdict round
without looking at anything else. So negations can be pushed down to the comparisons and groups of one kind be
flattened, and the comparisons that are made are still the same ones, in the same order, with the same outcome, be it
an error. What a comparison does is left open for that: it may fail, and it may leave a note that it has been made.
-/
namespace Pipewright

namespace Condition

/-- A property that groups and negations inherit from what is in them holds of every condition if it holds of the
comparisons. -/
@[elab_as_elim]
theorem induction {P : Condition → Prop} (all : ∀ conditions, (∀ c ∈ conditions, P c) → P (.all conditions))
    (any : ∀ conditions, (∀ c ∈ conditions, P c) → P (.any conditions)) (negate : ∀ c, P c → P (.negate c))
    (compare : ∀ comparison, P (.compare comparison))
    (list : ∀ conditions, (∀ c ∈ conditions, P c) → P (.list conditions)) : ∀ c, P c
  | .all conditions => all conditions fun c _ => induction all any negate compare list c
  | .any conditions => any conditions fun c _ => induction all any negate compare list c
  | .negate c => negate c (induction all any negate compare list c)
  | .compare comparison => compare comparison
  | .list conditions => list conditions fun c _ => induction all any negate compare list c

/-! ### Chains of verdicts -/

section

variable {m : Type → Type} [Monad m]

/-- Comes to verdicts in order until one is the one to stop at. -/
def chain (stop : Bool) : List (m Bool) → m Bool
  | [] => pure !stop
  | x :: rest => do
    let b ← x
    if b = stop then pure stop else chain stop rest

/-- The verdict, or the opposite one. -/
def turned (negated : Bool) (x : m Bool) : m Bool := (negated ^^ ·) <$> x

variable [LawfulMonad m] {stop negated : Bool} {x : m Bool}

@[simp] theorem turned_false : turned false x = x := by
  simp [turned]

@[simp] theorem turned_turned (other : Bool) : turned other (turned negated x) = turned (other ^^ negated) x := by
  simp [turned]

/-- What is chained with something else comes first, and decides if it comes to the verdict to stop at. -/
theorem chain_append (xs ys : List (m Bool)) :
    chain stop (xs ++ ys) = chain stop xs >>= fun b => if b = stop then pure stop else chain stop ys := by
  induction xs with
  | nil => simp [chain]
  | cons x rest ih =>
    rw [List.cons_append, chain, chain, bind_assoc]
    refine bind_congr fun b => ?_
    by_cases hb : b = stop
    · simp [hb]
    · rw [if_neg hb, if_neg hb, ih]

@[simp] theorem chain_singleton (x : m Bool) : chain stop [x] = x := by
  have hverdict (b : Bool) : (if b = stop then pure stop else pure !stop : m Bool) = pure b := by
    cases b <;> cases stop <;> rfl
  simp [chain, hverdict]

/-- A chain inside of a chain that stops at the same verdict is a part of it. -/
theorem chain_splice (xs ys zs : List (m Bool)) :
    chain stop (xs ++ chain stop ys :: zs) = chain stop (xs ++ ys ++ zs) := by
  rw [List.append_assoc, chain_append xs, chain_append xs, chain_append ys]
  rfl

/-- The opposite of a chain is the chain of the opposites. -/
theorem turned_chain (xs : List (m Bool)) :
    turned negated (chain stop xs) = chain (negated ^^ stop) (xs.map (turned negated)) := by
  induction xs with
  | nil => simp [chain, turned]
  | cons x rest ih =>
    rw [List.map_cons, chain, chain, turned, turned, map_bind, bind_map_left]
    refine bind_congr fun b => ?_
    by_cases hb : b = stop
    · simp [hb]
    · have hne : (negated ^^ b) ≠ (negated ^^ stop) := by simpa using hb
      rw [if_neg hb, if_neg hne, ← ih]
      rfl

end

/-! ### Evaluation with any kind of comparison -/

section

variable {m : Type → Type} [Monad m] (make : Comparison → m Bool)

mutual

/-- Evaluates a condition, given what it takes to make a comparison. -/
def evaluateBy : Condition → m Bool
  | .all conditions | .list conditions => chain false (verdictsBy conditions)
  | .any conditions => chain true (verdictsBy conditions)
  | .negate condition => turned true (evaluateBy condition)
  | .compare comparison => make comparison

def verdictsBy : List Condition → List (m Bool)
  | [] => []
  | c :: rest => evaluateBy c :: verdictsBy rest

end

theorem verdictsBy_eq_map (conditions : List Condition) :
    verdictsBy make conditions = conditions.map (evaluateBy make) := by
  induction conditions with
  | nil => rfl
  | cons c rest ih => rw [verdictsBy, List.map_cons, ih]

end

mutual

/-- The evaluation in a scope is the one with the comparisons in that scope. -/
theorem evaluateBy_evaluate (scope : Scope) : ∀ c, evaluateBy (·.evaluate scope) c = evaluate scope c
  | .all conditions | .list conditions => by
    rw [evaluateBy, evaluate]
    exact chain_false_evaluate scope conditions
  | .any conditions => by
    rw [evaluateBy, evaluate]
    exact chain_true_evaluate scope conditions
  | .negate condition => by
    rw [evaluateBy, evaluate, evaluateBy_evaluate scope condition, turned, ← bind_pure_comp]
    exact bind_congr fun b => by rw [Bool.true_xor]
  | .compare comparison => by rw [evaluateBy, evaluate]

theorem chain_false_evaluate (scope : Scope) :
    ∀ conditions, chain false (verdictsBy (·.evaluate scope) conditions) = evaluateAll scope conditions
  | [] => rfl
  | c :: rest => by
    rw [verdictsBy, chain, evaluateAll, evaluateBy_evaluate scope c, chain_false_evaluate scope rest]
    exact bind_congr fun b => by cases b <;> rfl

theorem chain_true_evaluate (scope : Scope) :
    ∀ conditions, chain true (verdictsBy (·.evaluate scope) conditions) = evaluateAny scope conditions
  | [] => rfl
  | c :: rest => by
    rw [verdictsBy, chain, evaluateAny, evaluateBy_evaluate scope c, chain_true_evaluate scope rest]
    exact bind_congr fun b => by cases b <;> rfl

end

section

variable {m : Type → Type} [Monad m] [LawfulMonad m] {make : Comparison → m Bool}

/-- The opposite of a group is the other kind of group of the negations. -/
theorem turned_group (stop : Bool) (conditions : List Condition) :
    turned true (chain stop (verdictsBy make conditions)) =
      chain (!stop) (verdictsBy make (conditions.map .negate)) := by
  rw [turned_chain, verdictsBy_eq_map, verdictsBy_eq_map, List.map_map, List.map_map, Bool.true_xor]
  rfl

theorem splice_group {stop : Bool} {c : Condition} {inner : List Condition}
    (hc : evaluateBy make c = chain stop (verdictsBy make inner)) (before after : List Condition) :
    chain stop (verdictsBy make (before ++ c :: after)) = chain stop (verdictsBy make (before ++ inner ++ after)) := by
  simp only [verdictsBy_eq_map, List.map_append, List.map_cons, hc]
  exact chain_splice _ _ _

end

/-! ### The comparisons that are made -/

/-- Executions that may fail and take notes of comparisons, which stay when they fail. -/
abbrev Noting := ExceptT RunError (StateM (List Comparison))

/-- The outcome of an execution, and all notes, after some that there were before. -/
def Noting.after (notes : List Comparison) (x : Noting Bool) : Except RunError Bool × List Comparison :=
  StateT.run x.run notes

end Condition

/-- Takes a note of a comparison before it is made, so before any of its sides is resolved. -/
def Comparison.noted (scope : Scope) (c : Comparison) : Condition.Noting Bool :=
  ExceptT.mk do
    modify (· ++ [c])
    return c.evaluate scope

namespace Condition

/-- The comparisons that the evaluation of a condition makes, in order. -/
def comparisonsMade (scope : Scope) (c : Condition) : List Comparison :=
  (Noting.after [] (evaluateBy (Comparison.noted scope) c)).2

/-- Whatever notes there are, an execution comes to an outcome. -/
def ComesTo (x : Noting Bool) (outcome : Except RunError Bool) : Prop := ∀ notes, (x.after notes).1 = outcome

theorem comesTo_pure (b : Bool) : ComesTo (pure b) (.ok b) := fun _ => rfl

theorem ComesTo.bind {x : Noting Bool} {outcome : Except RunError Bool} {f : Bool → Noting Bool}
    {g : Bool → Except RunError Bool} (hx : ComesTo x outcome) (hf : ∀ b, ComesTo (f b) (g b)) :
    ComesTo (x >>= f) (outcome >>= g) := by
  intro notes
  have houtcome := hx notes
  change (StateT.run (x.run >>= ExceptT.bindCont f) notes).1 = _
  rw [StateT.run_bind]
  change (StateT.run (ExceptT.bindCont f (x.after notes).1) (x.after notes).2).1 = _
  rw [houtcome]
  cases outcome with
  | error e => rfl
  | ok b => exact hf b _

mutual

/-- Taking notes leaves the outcome as it is. -/
theorem comesTo_evaluateBy (scope : Scope) :
    ∀ c, ComesTo (evaluateBy (Comparison.noted scope) c) (evaluateBy (·.evaluate scope) c)
  | .all conditions | .list conditions => comesTo_chain scope false conditions
  | .any conditions => comesTo_chain scope true conditions
  | .negate condition => by
    rw [evaluateBy, evaluateBy, turned, turned, ← bind_pure_comp, ← bind_pure_comp]
    exact (comesTo_evaluateBy scope condition).bind fun b => comesTo_pure _
  | .compare comparison => fun _ => rfl

theorem comesTo_chain (scope : Scope) (stop : Bool) : ∀ conditions,
    ComesTo (chain stop (verdictsBy (Comparison.noted scope) conditions))
      (chain stop (verdictsBy (·.evaluate scope) conditions))
  | [] => comesTo_pure _
  | c :: rest => by
    refine (comesTo_evaluateBy scope c).bind fun b => ?_
    by_cases hb : b = stop
    · rw [if_pos hb, if_pos hb]
      exact comesTo_pure stop
    · rw [if_neg hb, if_neg hb]
      exact comesTo_chain scope stop rest

end

/-- In every scope two conditions come to the same, be it an error, and make the same comparisons on the way, in the
same order. -/
structure Alike (c d : Condition) : Prop where
  outcome : ∀ scope, evaluate scope c = evaluate scope d
  comparisons : ∀ scope, comparisonsMade scope c = comparisonsMade scope d

/-- Conditions are alike if their evaluations are the same whatever it takes to make a comparison. -/
theorem alike_of_evaluateBy {c d : Condition} (h : ∀ (m : Type → Type) [Monad m] [LawfulMonad m]
    (make : Comparison → m Bool), evaluateBy make c = evaluateBy make d) : Alike c d where
  outcome scope := by
    have hnoted (c : Condition) :
        (Noting.after [] (evaluateBy (Comparison.noted scope) c)).1 = evaluate scope c := by
      rw [← evaluateBy_evaluate]
      exact comesTo_evaluateBy scope c []
    rw [← hnoted, ← hnoted, h]
  comparisons scope := by rw [comparisonsMade, comparisonsMade, h]

/-! ### Pushing negations down -/

/-- A group that stops at a verdict: an `or` for true and an `and` for false. -/
def groupOf (stop : Bool) (conditions : List Condition) : Condition :=
  if stop then .any conditions else .all conditions

/-- The conditions that stand for one in a group: those in it if it is itself a group of that kind. -/
def members (stop : Bool) : Condition → List Condition
  | .all conditions => if stop then [.all conditions] else conditions
  | .list conditions => if stop then [.list conditions] else conditions
  | .any conditions => if stop then conditions else [.any conditions]
  | c => [c]

mutual

/-- The condition, or the opposite of it, with negations of comparisons only and no group right inside of a group of its
kind. -/
def normalForm (negated : Bool) : Condition → Condition
  | .all conditions | .list conditions =>
    groupOf negated ((normalForms negated conditions).flatMap (members negated))
  | .any conditions => groupOf (!negated) ((normalForms negated conditions).flatMap (members !negated))
  | .negate condition => normalForm (!negated) condition
  | .compare comparison => if negated then .negate (.compare comparison) else .compare comparison

def normalForms (negated : Bool) : List Condition → List Condition
  | [] => []
  | c :: rest => normalForm negated c :: normalForms negated rest

end

theorem normalForms_eq_map (negated : Bool) (conditions : List Condition) :
    normalForms negated conditions = conditions.map (normalForm negated) := by
  induction conditions with
  | nil => rfl
  | cons c rest ih => rw [normalForms, List.map_cons, ih]

section

variable {m : Type → Type} [Monad m] [LawfulMonad m] {make : Comparison → m Bool}

omit [LawfulMonad m] in
theorem evaluateBy_groupOf (stop : Bool) (conditions : List Condition) :
    evaluateBy make (groupOf stop conditions) = chain stop (conditions.map (evaluateBy make)) := by
  cases stop
  · rw [groupOf, if_neg Bool.false_ne_true, evaluateBy, verdictsBy_eq_map]
  · rw [groupOf, if_pos rfl, evaluateBy, verdictsBy_eq_map]

/-- A condition is the chain of its members. -/
theorem chain_members (stop : Bool) (c : Condition) :
    chain stop ((members stop c).map (evaluateBy make)) = evaluateBy make c := by
  cases c <;> cases stop <;> simp [members, evaluateBy, verdictsBy_eq_map]

theorem chain_flatMap_members (stop : Bool) (conditions : List Condition) :
    chain stop ((conditions.flatMap (members stop)).map (evaluateBy make)) =
      chain stop (conditions.map (evaluateBy make)) := by
  induction conditions with
  | nil => rfl
  | cons c rest ih =>
    rw [List.flatMap_cons, List.map_append, chain_append, chain_members, ih]
    rfl

/-- The group of what comes to the same as some conditions, or to the opposite, is their group or the opposite of it. -/
theorem evaluateBy_flattened {negated : Bool} {conditions : List Condition} (stop : Bool)
    (h : ∀ c ∈ conditions, evaluateBy make (normalForm negated c) = turned negated (evaluateBy make c)) :
    evaluateBy make (groupOf (negated ^^ stop) ((normalForms negated conditions).flatMap (members (negated ^^ stop)))) =
      turned negated (chain stop (verdictsBy make conditions)) := by
  rw [evaluateBy_groupOf, chain_flatMap_members, normalForms_eq_map, turned_chain, verdictsBy_eq_map, List.map_map,
    List.map_map]
  exact congrArg (chain (negated ^^ stop)) (List.map_congr_left h)

theorem evaluateBy_normalForm (negated : Bool) (c : Condition) :
    evaluateBy make (normalForm negated c) = turned negated (evaluateBy make c) := by
  induction c using induction generalizing negated with
  | all conditions ih | list conditions ih =>
    have hgroup := evaluateBy_flattened false fun c hc => ih c hc negated
    rwa [Bool.xor_false] at hgroup
  | any conditions ih =>
    have hgroup := evaluateBy_flattened true fun c hc => ih c hc negated
    rwa [Bool.xor_true] at hgroup
  | negate c ih => rw [normalForm, ih, evaluateBy, turned_turned, Bool.xor_true]
  | compare comparison => cases negated <;> simp [normalForm, evaluateBy]

end

/-- Only comparisons are negated, there are no bare lists, and no group is right inside of one of its kind. -/
inductive IsNormal : Condition → Prop
  | compare (comparison : Comparison) : IsNormal (.compare comparison)
  | negated (comparison : Comparison) : IsNormal (.negate (.compare comparison))
  | all {conditions : List Condition} (h : ∀ c ∈ conditions, IsNormal c)
      (hflat : ∀ inner, .all inner ∉ conditions) : IsNormal (.all conditions)
  | any {conditions : List Condition} (h : ∀ c ∈ conditions, IsNormal c)
      (hflat : ∀ inner, .any inner ∉ conditions) : IsNormal (.any conditions)

theorem IsNormal.of_mem_members {c d : Condition} {stop : Bool} (h : c.IsNormal) (hd : d ∈ members stop c) :
    d.IsNormal ∧ ∀ inner, d ≠ groupOf stop inner := by
  cases h with
  | compare | negated =>
    obtain rfl := List.mem_singleton.mp hd
    exact ⟨by constructor, fun inner => by cases stop <;> nofun⟩
  | all h hflat =>
    cases stop with
    | true =>
      obtain rfl := List.mem_singleton.mp hd
      exact ⟨.all h hflat, nofun⟩
    | false =>
      refine ⟨h d hd, ?_⟩
      rintro inner rfl
      exact hflat inner hd
  | any h hflat =>
    cases stop with
    | true =>
      refine ⟨h d hd, ?_⟩
      rintro inner rfl
      exact hflat inner hd
    | false =>
      obtain rfl := List.mem_singleton.mp hd
      exact ⟨.any h hflat, nofun⟩

theorem isNormal_groupOf {stop : Bool} {conditions : List Condition} (h : ∀ c ∈ conditions, c.IsNormal) :
    (groupOf stop (conditions.flatMap (members stop))).IsNormal := by
  have hmembers : ∀ d ∈ conditions.flatMap (members stop), d.IsNormal ∧ ∀ inner, d ≠ groupOf stop inner := by
    intro d hd
    obtain ⟨c, hc, hd⟩ := List.mem_flatMap.mp hd
    exact (h c hc).of_mem_members hd
  cases stop with
  | true => exact .any (fun d hd => (hmembers d hd).1) fun inner hinner => (hmembers _ hinner).2 inner rfl
  | false => exact .all (fun d hd => (hmembers d hd).1) fun inner hinner => (hmembers _ hinner).2 inner rfl

theorem isNormal_normalForm (negated : Bool) (c : Condition) : (normalForm negated c).IsNormal := by
  induction c using induction generalizing negated with
  | all conditions ih | list conditions ih | any conditions ih =>
    rw [normalForm, normalForms_eq_map]
    exact isNormal_groupOf (List.forall_mem_map.mpr fun c hc => ih c hc negated)
  | negate c ih => exact ih _
  | compare comparison =>
    cases negated with
    | true => exact .negated comparison
    | false => exact .compare comparison

/-- The laws of negation hold of conditions with errors and all: the two sides of each come to the same in every scope,
and neither makes a comparison that the other does not make. So every condition has a normal form that is alike. -/
theorem deMorgan :
    (∀ conditions, Alike (.negate (.all conditions)) (.any (conditions.map .negate)) ∧
      Alike (.negate (.list conditions)) (.any (conditions.map .negate)) ∧
      Alike (.negate (.any conditions)) (.all (conditions.map .negate))) ∧
    (∀ c, Alike (.negate (.negate c)) c) ∧
    (∀ before inner after,
      Alike (.all (before ++ .all inner :: after)) (.all (before ++ inner ++ after)) ∧
      Alike (.all (before ++ .list inner :: after)) (.all (before ++ inner ++ after)) ∧
      Alike (.any (before ++ .any inner :: after)) (.any (before ++ inner ++ after))) ∧
    ∀ c, (normalForm false c).IsNormal ∧ Alike (normalForm false c) c := by
  refine ⟨fun conditions => ⟨?_, ?_, ?_⟩, fun c => ?_, fun before inner after => ⟨?_, ?_, ?_⟩, fun c => ⟨?_, ?_⟩⟩
  · exact alike_of_evaluateBy fun m _ _ make => turned_group false conditions
  · exact alike_of_evaluateBy fun m _ _ make => turned_group false conditions
  · exact alike_of_evaluateBy fun m _ _ make => turned_group true conditions
  · exact alike_of_evaluateBy fun m _ _ make => (turned_turned true).trans turned_false
  · exact alike_of_evaluateBy fun m _ _ make => splice_group rfl before after
  · exact alike_of_evaluateBy fun m _ _ make => splice_group rfl before after
  · exact alike_of_evaluateBy fun m _ _ make => splice_group rfl before after
  · exact isNormal_normalForm false c
  · exact alike_of_evaluateBy fun m _ _ make => (evaluateBy_normalForm false c).trans turned_false

/-- A negated list of an `or` with a negation and an `and` in it. -/
example (a b c : Comparison) :
    normalForm false (.negate (.list [.any [.negate (.compare a), .any [.compare b]], .all [.all [.compare c]]])) =
      .any [.all [.compare a, .negate (.compare b)], .negate (.compare c)] := rfl

end Condition

end Pipewright
