import Pipewright.Proofs.ValueOrder
import Pipewright.Condition

/-!
# What the operators `<` and `<=` order

Numbers and the strings that spell one are ordered as numbers, two strings of which at least one spells none as texts.
Each of the two regimes is an order. A chain of three values that passes from one to the other need not be one, which
takes exactly two of them to be numeric. A string that spells a NaN is not even less than or equal to itself.
-/
namespace Pipewright

namespace Double

theorem compare?_eq_some_iff {x y : Double} {o : Ordering} :
    compare? x y = some o ↔ x ≠ .nan ∧ y ≠ .nan ∧ compare x.scaled y.scaled = o := by
  constructor
  · intro h
    have hx : x ≠ .nan := by
      rintro rfl
      cases h
    have hy : y ≠ .nan := by
      rintro rfl
      cases x <;> cases h
    rw [compare?_of_ne_nan hx hy] at h
    exact ⟨hx, hy, Option.some.inj h⟩
  · rintro ⟨hx, hy, rfl⟩
    exact compare?_of_ne_nan hx hy

end Double

namespace Operator

open Value

/-- Whether a value has a numeric view: numbers have one, and so have the strings that spell one. -/
def isNumeric (v : Value) : Bool := v.number?.isSome

/-! ### The two regimes -/

theorem order?_of_numbers {a b : Value} {x y : Double} (ha : a.number? = some x) (hb : b.number? = some y) :
    order? a b = Double.compare? x y := by
  unfold order?
  rw [ha, hb]

theorem order?_of_texts {s t : String} (h : (str s).number? = none ∨ (str t).number? = none) :
    order? (.str s) (.str t) = some (Ord.compare s t) := by
  unfold order?
  rcases h with h | h <;> rw [h]
  split
  · contradiction
  · rfl

/-- Two values are ordered as numbers if both are numeric, and otherwise only if both are strings. -/
theorem cases_of_order? {a b : Value} {o : Ordering} (h : order? a b = some o) :
    (∃ x y, a.number? = some x ∧ b.number? = some y ∧ Double.compare? x y = some o) ∨
    ∃ s t, a = .str s ∧ b = .str t ∧ (a.number? = none ∨ b.number? = none) ∧ Ord.compare s t = o := by
  unfold order? at h
  split at h
  next x y ha hb => exact .inl ⟨x, y, ha, hb, h⟩
  next hnumbers =>
    split at h
    next s t =>
      refine .inr ⟨s, t, rfl, rfl, ?_, Option.some.inj h⟩
      cases hs : (str s).number? with
      | none => exact .inl rfl
      | some x =>
        cases ht : (str t).number? with
        | none => exact .inr rfl
        | some y => exact (hnumbers x y hs ht).elim
    · cases h

/-! ### Chains -/

/-- The middle value takes part in both comparisons. Where these are of one regime, so is that of the outer values, or
else these are numeric and the middle one is not. -/
theorem order?_trans {a b c : Value} (hab : order? a b = some .lt) (hbc : order? b c = some .lt)
    (hmixed : [a, b, c].countP isNumeric ≠ 2) : order? a c = some .lt := by
  rcases cases_of_order? hab with ⟨x, y, ha, hb, hxy⟩ | ⟨s, t, rfl, rfl, htexts, hst⟩
  · rcases cases_of_order? hbc with ⟨y', z, hb', hc, hyz⟩ | ⟨t, u, rfl, rfl, htexts, -⟩
    · obtain rfl : y = y' := Option.some.inj (hb.symm.trans hb')
      obtain ⟨hx, -, hxy⟩ := Double.compare?_eq_some_iff.mp hxy
      obtain ⟨-, hz, hyz⟩ := Double.compare?_eq_some_iff.mp hyz
      rw [order?_of_numbers ha hc]
      exact Double.compare?_eq_some_iff.mpr ⟨hx, hz, Std.TransCmp.lt_trans hxy hyz⟩
    · -- The first two are numeric and the last is not.
      have hc : (str u).number? = none := htexts.resolve_left (by simp [hb])
      simp [isNumeric, ha, hb, hc] at hmixed
  · rcases cases_of_order? hbc with ⟨y, z, hb, hc, -⟩ | ⟨t', u, hb, rfl, htexts', htu⟩
    · -- The last two are numeric and the first is not.
      have ha : (str s).number? = none := htexts.resolve_right (by simp [hb])
      simp [isNumeric, ha, hb, hc] at hmixed
    · cases hb
      have hsu : (str s).number? = none ∨ (str u).number? = none := by
        cases ha : (str s).number? with
        | none => exact .inl rfl
        | some x =>
          cases hc : (str u).number? with
          | none => exact .inr rfl
          | some z =>
            -- The outer two are numeric and the middle one is not.
            have hb : (str t).number? = none := htexts.resolve_left (by simp [ha])
            simp [isNumeric, ha, hb, hc] at hmixed
      rw [order?_of_texts hsu, Std.TransCmp.lt_trans hst htu]

theorem order?_gt_of_lt {a b : Value} (h : order? a b = some .lt) : order? b a = some .gt := by
  rcases cases_of_order? h with ⟨x, y, ha, hb, hxy⟩ | ⟨s, t, rfl, rfl, htexts, hst⟩
  · obtain ⟨hx, hy, hxy⟩ := Double.compare?_eq_some_iff.mp hxy
    rw [order?_of_numbers hb ha]
    exact Double.compare?_eq_some_iff.mpr ⟨hy, hx, Std.OrientedCmp.gt_of_lt hxy⟩
  · rw [order?_of_texts htexts.symm, Std.OrientedCmp.gt_of_lt hst]

theorem order?_self_num (n : Number) : order? (.num n) (.num n) = some .eq := by
  have hn := n.toDouble_ne_nan
  rw [order?_of_numbers rfl rfl]
  exact Double.compare?_eq_some_iff.mpr ⟨hn, hn, Std.ReflCmp.compare_self⟩

/-- A string is as great as itself, unless it spells a NaN, which compares with nothing. -/
theorem order?_self_str (s : String) :
    order? (.str s) (.str s) = if (str s).number? = some .nan then none else some .eq := by
  cases h : (str s).number? with
  | none =>
    rw [order?_of_texts (.inl h), Std.ReflOrd.compare_self]
    rfl
  | some x =>
    rw [order?_of_numbers h h]
    by_cases hx : x = .nan
    · subst hx
      rfl
    · rw [if_neg fun heq => hx (Option.some.inj heq)]
      exact Double.compare?_eq_some_iff.mpr ⟨hx, hx, Std.ReflCmp.compare_self⟩

/-! ### The operators by name -/

theorem evaluate_less (a b : Value) : evaluate "<" a b = .ok ((order? a b).any (·.isLT)) := rfl

theorem evaluate_lessOrEqual (a b : Value) : evaluate "<=" a b = .ok ((order? a b).any (·.isLE)) := rfl

theorem evaluate_less_iff {a b : Value} : evaluate "<" a b = .ok true ↔ order? a b = some .lt := by
  rw [evaluate_less]
  cases order? a b with
  | none => simp
  | some o => cases o <;> simp

/-- `<` is transitive unless exactly two of the three values are numeric, and never holds both ways. `<=` holds between
a number and itself, and between a string and itself just if it does not spell a NaN. -/
theorem less_orders (a b c : Value) :
    ([a, b, c].countP isNumeric ≠ 2 → evaluate "<" a b = .ok true → evaluate "<" b c = .ok true →
      evaluate "<" a c = .ok true) ∧
    (evaluate "<" a b = .ok true → evaluate "<" b a = .ok false) ∧
    (∀ n : Number, evaluate "<=" (.num n) (.num n) = .ok true) ∧
    ∀ s : String, evaluate "<=" (.str s) (.str s) = .ok true ↔ (str s).number? ≠ some .nan := by
  refine ⟨fun hmixed hab hbc => ?_, fun hab => ?_, fun n => ?_, fun s => ?_⟩
  · rw [evaluate_less_iff] at hab hbc ⊢
    exact order?_trans hab hbc hmixed
  · rw [evaluate_less, order?_gt_of_lt (evaluate_less_iff.mp hab)]
    rfl
  · rw [evaluate_lessOrEqual, order?_self_num]
    rfl
  · rw [evaluate_lessOrEqual, order?_self_str]
    by_cases h : (str s).number? = some .nan
    · simp [h]
    · simp [h]

/-- `"1.5" < "1e1"` and `"1e1" < 11`, all of them numeric. -/
theorem less_orders_numeric :
    let a := str "1.5"
    let b := str "1e1"
    let c := int 11
    [a, b, c].countP isNumeric ≠ 2 ∧ evaluate "<" a b = .ok true ∧ evaluate "<" b c = .ok true ∧
      evaluate "<" a c = .ok true ∧ evaluate "<" c b = .ok false := by
  intro a b c
  have hmixed : [a, b, c].countP isNumeric ≠ 2 := by decide +kernel
  have hab : evaluate "<" a b = .ok true := evaluate_less_iff.mpr (by decide +kernel)
  have hbc : evaluate "<" b c = .ok true := evaluate_less_iff.mpr (by decide +kernel)
  obtain ⟨htrans, -⟩ := less_orders a b c
  obtain ⟨-, hasymm, -⟩ := less_orders b c a
  exact ⟨hmixed, hab, hbc, htrans hmixed hab hbc, hasymm hbc⟩

/-- `"10" < "5x"` and `"5x" < "9"` hold between texts, and `"10" < "9"` fails between numbers. `"nan" <= "nan"`
fails. -/
theorem not_forall_less_trans :
    (¬ ∀ a b c : Value, evaluate "<" a b = .ok true → evaluate "<" b c = .ok true → evaluate "<" a c = .ok true) ∧
    ¬ ∀ s : String, evaluate "<=" (.str s) (.str s) = .ok true := by
  constructor
  · intro hall
    have hab : order? (.str "10") (.str "5x") = some .lt := by decide +kernel
    have hbc : order? (.str "5x") (.str "9") = some .lt := by decide +kernel
    have hac : order? (.str "10") (.str "9") ≠ some .lt := by decide +kernel
    exact hac (evaluate_less_iff.mp (hall _ _ _ (evaluate_less_iff.mpr hab) (evaluate_less_iff.mpr hbc)))
  · intro hall
    have hnan : order? (.str "nan") (.str "nan") = none := by decide +kernel
    have hself := hall "nan"
    rw [evaluate_lessOrEqual, hnan] at hself
    cases hself

end Operator

end Pipewright
