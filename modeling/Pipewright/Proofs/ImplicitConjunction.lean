import Mathlib.Data.List.Forall2
import Pipewright.Proofs.ValueInduction

/-!
# Bare lists of conditions

A bare list of conditions is meant to be their conjunction. It is for every length but one, since no condition is
a text that could be the operator of a comparison. A list of one condition is taken for a comparison whose field
is the whole of that condition, and asks whether it is empty.
-/
namespace Pipewright

namespace Value

/-- The object of an `and` or an `or`. -/
def group (name : String) (vs : List Value) : Value := .obj [(name, .arr vs)]

/-- The object of a `not`. -/
def negation (v : Value) : Value := .obj [("not", v)]

def IsCondition (v : Value) : Prop := ∃ c, Condition.decode v = .ok c

/-- Two values are read as conditions that come to the same in every scope, be it an error. -/
def MeansSame (v w : Value) : Prop :=
  ∃ c d, Condition.decode v = .ok c ∧ Condition.decode w = .ok d ∧
    ∀ scope, Condition.evaluate scope c = Condition.evaluate scope d

end Value

namespace Condition

open Value

/-! ### Reading lists -/

theorem decode_arr (vs : List Value) :
    decode (.arr vs) = Reading.conditionOfItems (vs.map Value.reading) := by
  rw [decode, reading_arr]
  rfl

/-- No condition is a text. -/
theorem text_of_isCondition {v : Value} (h : v.IsCondition) : v.text = .error (.mismatch "a string") := by
  obtain ⟨c, hc⟩ := h
  cases v with
  | str => cases hc
  | _ => rfl

/-- The conditions of a list are read one by one. -/
theorem mapM_reading {vs : List Value} {cs : List Condition}
    (h : List.Forall₂ (fun v c => decode v = .ok c) vs cs) :
    (vs.map Value.reading).mapM Reading.condition = .ok cs := by
  induction h with
  | nil => rfl
  | @cons v c vs cs hv _ ih =>
    have hread : v.reading.condition = .ok c := hv
    rw [List.map_cons, List.mapM_cons, hread, ih]
    rfl

theorem exists_decoded {vs : List Value} (h : ∀ v ∈ vs, v.IsCondition) :
    ∃ cs, List.Forall₂ (fun v c => decode v = .ok c) vs cs := by
  induction vs with
  | nil => exact ⟨[], .nil⟩
  | cons v rest ih =>
    obtain ⟨c, hc⟩ := h v List.mem_cons_self
    obtain ⟨cs, hcs⟩ := ih fun w hw => h w (List.mem_cons_of_mem _ hw)
    exact ⟨c :: cs, .cons hc hcs⟩

/-- The second of several conditions would have to be the operator of a comparison. -/
theorem not_comparison {vs : List Value} (h : ∀ v ∈ vs, v.IsCondition) (hlength : vs.length ≠ 1) :
    ∃ e, (Reading.positional ["field", "operator", "value"] (vs.map Value.reading)).bind Reading.comparison =
      .error e := by
  rw [Reading.positional]
  split
  next hshort =>
    match vs with
    | [] => exact ⟨_, rfl⟩
    | [v] => exact absurd rfl hlength
    | v :: w :: rest =>
      have htext : w.reading.text = .error (.mismatch "a string") := by
        rw [Reading.text, reading_value]
        exact text_of_isCondition (h w (by simp))
      refine ⟨.mismatch "a string", ?_⟩
      simp only [List.map_cons, List.zip_cons_cons, Except.bind, Reading.comparison, Reading.required, Fields.get?]
      simp [htext, bind, Except.bind]
  · exact ⟨_, rfl⟩

theorem isCondition_of_decoded {vs : List Value} {cs : List Condition}
    (h : List.Forall₂ (fun v c => decode v = .ok c) vs cs) : ∀ v ∈ vs, v.IsCondition := by
  induction h with
  | nil => exact nofun
  | cons hv _ ih =>
    intro w hw
    rcases List.mem_cons.mp hw with rfl | hw
    · exact ⟨_, hv⟩
    · exact ih w hw

theorem decode_list {vs : List Value} {cs : List Condition}
    (h : List.Forall₂ (fun v c => decode v = .ok c) vs cs) (hlength : vs.length ≠ 1) :
    decode (.arr vs) = .ok (.list cs) := by
  obtain ⟨e, he⟩ := not_comparison (isCondition_of_decoded h) hlength
  rw [decode_arr, Reading.conditionOfItems, he, mapM_reading h]
  rfl

/-- A list of one value is a comparison without an operator, whatever the value is. -/
theorem decode_singleton (v : Value) : decode (.arr [v]) = .ok (.compare ⟨v, "not_empty", .null⟩) := by
  have hcomparison : (Reading.positional ["field", "operator", "value"] [v.reading]).bind Reading.comparison =
      .ok ⟨v.reading.value, "not_empty", .null⟩ := rfl
  rw [decode_arr, List.map_singleton, Reading.conditionOfItems, hcomparison, reading_value]

theorem conditions_arr {vs : List Value} {cs : List Condition}
    (h : List.Forall₂ (fun v c => decode v = .ok c) vs cs) : (Value.arr vs).reading.conditions = .ok cs := by
  rw [reading_arr]
  exact mapM_reading h

theorem decode_and {vs : List Value} {cs : List Condition}
    (h : List.Forall₂ (fun v c => decode v = .ok c) vs cs) : decode (group "and" vs) = .ok (.all cs) := by
  have hread : (Reading.required [("and", (Value.arr vs).reading)] "and" >>= Reading.conditions) = .ok cs :=
    conditions_arr h
  rw [decode, group, reading_obj]
  simp only [Reading.ofEntries, Reading.conditionOfEntries, List.map_cons, List.map_nil, hread]

theorem decode_or {vs : List Value} {cs : List Condition}
    (h : List.Forall₂ (fun v c => decode v = .ok c) vs cs) : decode (group "or" vs) = .ok (.any cs) := by
  have hread : (Reading.required [("or", (Value.arr vs).reading)] "or" >>= Reading.conditions) = .ok cs :=
    conditions_arr h
  have hmissing : (Reading.required [("or", (Value.arr vs).reading)] "and" >>= Reading.conditions) =
      .error (.missingField "and") := rfl
  rw [decode, group, reading_obj]
  simp only [Reading.ofEntries, Reading.conditionOfEntries, List.map_cons, List.map_nil, hread, hmissing]

theorem decode_not {v : Value} {c : Condition} (h : decode v = .ok c) :
    decode (negation v) = .ok (.negate c) := by
  have hread : (Reading.required [("not", v.reading)] "not" >>= Reading.condition) = .ok c := h
  have hand : (Reading.required [("not", v.reading)] "and" >>= Reading.conditions) =
      .error (.missingField "and") := rfl
  have hor : (Reading.required [("not", v.reading)] "or" >>= Reading.conditions) =
      .error (.missingField "or") := rfl
  rw [decode, negation, reading_obj]
  simp only [Reading.ofEntries, Reading.conditionOfEntries, List.map_cons, List.map_nil, hread, hand, hor]

/-! ### What lists come to -/

theorem evaluateAll_congr {scope : Scope} {cs ds : List Condition}
    (h : List.Forall₂ (fun c d => ∀ scope, evaluate scope c = evaluate scope d) cs ds) :
    evaluateAll scope cs = evaluateAll scope ds := by
  induction h with
  | nil => rfl
  | cons hc _ ih => rw [evaluateAll, evaluateAll, hc, ih]

theorem evaluateAny_congr {scope : Scope} {cs ds : List Condition}
    (h : List.Forall₂ (fun c d => ∀ scope, evaluate scope c = evaluate scope d) cs ds) :
    evaluateAny scope cs = evaluateAny scope ds := by
  induction h with
  | nil => rfl
  | cons hc _ ih => rw [evaluateAny, evaluateAny, hc, ih]

/-- Values that mean the same pairwise are read as conditions that come to the same pairwise. -/
theorem exists_decoded_pair {vs ws : List Value} (h : List.Forall₂ MeansSame vs ws) :
    ∃ cs ds, List.Forall₂ (fun v c => decode v = .ok c) vs cs ∧ List.Forall₂ (fun w d => decode w = .ok d) ws ds ∧
      List.Forall₂ (fun c d => ∀ scope, evaluate scope c = evaluate scope d) cs ds := by
  induction h with
  | nil => exact ⟨[], [], .nil, .nil, .nil⟩
  | cons hpair _ ih =>
    obtain ⟨c, d, hc, hd, heq⟩ := hpair
    obtain ⟨cs, ds, hcs, hds, hall⟩ := ih
    exact ⟨c :: cs, d :: ds, .cons hc hcs, .cons hd hds, .cons heq hall⟩

/-- A bare list of conditions means their conjunction unless there is exactly one of them, and so it does wherever
it stands: inside of bare lists, of `and`, `or` and `not`, parts that mean the same make wholes that do. A list of
one condition asks instead whether that condition, its references resolved, is an empty value. -/
theorem list_means_and (vs : List Value) (hconditions : ∀ v ∈ vs, v.IsCondition) :
    (vs.length ≠ 1 → MeansSame (.arr vs) (group "and" vs)) ∧
    (∀ ws : List Value, List.Forall₂ MeansSame vs ws →
      MeansSame (group "and" vs) (group "and" ws) ∧ MeansSame (group "or" vs) (group "or" ws) ∧
        (vs.length ≠ 1 → MeansSame (.arr vs) (.arr ws))) ∧
    (∀ v w : Value, MeansSame v w → MeansSame (negation v) (negation w)) ∧
    ∀ v : Value, vs = [v] → ∃ c, decode (.arr vs) = .ok c ∧
      ∀ scope, evaluate scope c = (v.resolve scope).map fun field => !field.isEmpty := by
  refine ⟨fun hlength => ?_, fun ws hpairs => ?_, fun v w hsame => ?_, fun v hsingle => ?_⟩
  · obtain ⟨cs, hcs⟩ := exists_decoded hconditions
    refine ⟨.list cs, .all cs, decode_list hcs hlength, decode_and hcs, fun scope => ?_⟩
    rw [evaluate, evaluate]
  · obtain ⟨cs, ds, hcs, hds, hall⟩ := exists_decoded_pair hpairs
    refine ⟨⟨.all cs, .all ds, decode_and hcs, decode_and hds, fun scope => ?_⟩,
      ⟨.any cs, .any ds, decode_or hcs, decode_or hds, fun scope => ?_⟩, fun hlength => ?_⟩
    · rw [evaluate, evaluate]
      exact evaluateAll_congr hall
    · rw [evaluate, evaluate]
      exact evaluateAny_congr hall
    · have hlength' : ws.length ≠ 1 := hpairs.length_eq ▸ hlength
      refine ⟨.list cs, .list ds, decode_list hcs hlength, decode_list hds hlength', fun scope => ?_⟩
      rw [evaluate, evaluate]
      exact evaluateAll_congr hall
  · obtain ⟨c, d, hc, hd, heq⟩ := hsame
    refine ⟨.negate c, .negate d, decode_not hc, decode_not hd, fun scope => ?_⟩
    rw [evaluate, evaluate, heq]
  · subst hsingle
    refine ⟨_, decode_singleton v, fun scope => ?_⟩
    rw [evaluate, Comparison.evaluate]
    cases v.resolve scope <;> rfl

/-- `3 = 99` and `3 = 3`, written as a bare list. -/
theorem list_means_and_of_two :
    let compares (n : Int) : Value := .obj [("field", .int 3), ("operator", .str "=="), ("value", .int n)]
    let vs := [compares 99, compares 3]
    (∀ v ∈ vs, v.IsCondition) ∧ vs.length ≠ 1 ∧ MeansSame (.arr vs) (group "and" vs) ∧
      MeansSame (negation (.arr vs)) (negation (group "and" vs)) := by
  intro compares vs
  have hconditions : ∀ v ∈ vs, v.IsCondition := by
    intro v hv
    rcases List.mem_cons.mp hv with rfl | hv
    · exact ⟨_, rfl⟩
    · obtain rfl := List.mem_singleton.mp hv
      exact ⟨_, rfl⟩
  have hlength : vs.length ≠ 1 := by decide
  obtain ⟨hlist, -, hnegation, -⟩ := list_means_and vs hconditions
  exact ⟨hconditions, hlength, hlist hlength, hnegation _ _ (hlist hlength)⟩

/-- The list of the one condition `3 = 99` holds, and its conjunction does not. -/
theorem not_forall_list_means_and :
    ¬ ∀ vs : List Value, (∀ v ∈ vs, v.IsCondition) → MeansSame (.arr vs) (group "and" vs) := by
  intro hall
  let compares : Value := .obj [("field", .int 3), ("operator", .str "=="), ("value", .int 99)]
  have hcondition : ∀ v ∈ [compares], v.IsCondition := fun v hv => List.mem_singleton.mp hv ▸ ⟨_, rfl⟩
  obtain ⟨c, d, hc, hd, heq⟩ := hall [compares] hcondition
  have hholds : (decode (.arr [compares])).map (evaluate .empty) = .ok (.ok true) := rfl
  have hfails : (decode (group "and" [compares])).map (evaluate .empty) = .ok (.ok false) := rfl
  rw [hc] at hholds
  rw [hd] at hfails
  have hdiffers : evaluate .empty c ≠ evaluate .empty d := by
    rw [Except.ok.inj hholds, Except.ok.inj hfails]
    exact nofun
  exact hdiffers (heq .empty)

end Condition

end Pipewright
