import Mathlib.Data.List.Induction
import Pipewright.Proofs.ExactSum
import Pipewright.Proofs.Rounding

/-!
# When aggregates are numbers

Doubles are added from the left. Their sum is finite just if each of them is and nowhere on the way a sum reaches the
magnitude that is rounded out of range; and a quotient by a count is finite if the sum is. So `sum` and `average` answer
with a number in this case, `sum` also if integers come to an exact sum, and with null in all other cases. It takes no
more for that than a text that names an infinity or a NaN, which counts as numeric.
-/
namespace Pipewright

namespace Double

/-! ### Finite results -/

/-- The least magnitude that is rounded out of range: half a gap above the greatest finite one. -/
def overflow : Nat := Nat.pow 2 2098 - Nat.pow 2 2044

theorem rounded_lt_limit_iff {units : Nat} : rounded units < limit ↔ units < overflow := by
  constructor
  · intro h
    have htop : rounded overflow = limit := by decide +kernel
    by_contra hle
    have hmono := rounded_mono (Nat.le_of_not_lt hle)
    omega
  · intro h
    have hbelow : rounded (overflow - 1) < limit := by decide +kernel
    have hmono := rounded_mono (Nat.le_sub_one_of_lt h)
    omega

@[simp] theorem isFinite_finite (x : FiniteDouble) : (finite x).isFinite = true := rfl

@[simp] theorem isFinite_infinite (negative : Bool) : (infinite negative).isFinite = false := rfl

@[simp] theorem isFinite_nan : nan.isFinite = false := rfl

theorem isFinite_round_one (negative : Bool) (units : Nat) : (round negative units 1).isFinite ↔ units < overflow := by
  rw [← rounded_lt_limit_iff, ← representable_rounded_iff, round_one]
  split
  next h => simp [h]
  next h => simp [h]

/-- A sum is finite if both summands are and the exact sum is not rounded out of range. -/
theorem isFinite_add_iff {x y : Double} :
    (x + y).isFinite ↔ x.isFinite ∧ y.isFinite ∧ (x.scaled + y.scaled).natAbs < overflow := by
  change (add x y).isFinite ↔ _
  cases x with
  | nan => simp [add]
  | infinite a =>
    cases y with
    | infinite b => cases a <;> cases b <;> simp [add]
    | _ => simp [add]
  | finite x =>
    cases y with
    | finite y => simp [add, isFinite_round_one, scaled]
    | _ => simp [add]

/-- A magnitude in range that is divided by a count stays in range. -/
theorem isFinite_round_of_representable (negative : Bool) {units den : Nat} (h : Representable units)
    (hden : 0 < den) : (round negative units den).isFinite := by
  by_cases hone : den = 1
  · subst hone
    rw [isFinite_round_one, ← rounded_lt_limit_iff, rounded_of_dvd h.2]
    exact h.1
  · let quotient := units / den
    let step := gap quotient
    have hquotient : quotient < 2 ^ 2097 := by
      apply Nat.div_lt_of_lt_mul
      calc units < limit := h.1
        _ = 2 * 2 ^ 2097 := by decide +kernel
        _ ≤ den * 2 ^ 2097 := Nat.mul_le_mul_right _ (by omega)
    have hbits : roundDiv units (den * step) ≤ 2 ^ 53 := by
      refine roundDiv_le (Nat.mul_pos hden (gap_pos quotient)) ?_
      calc units ≤ den * (quotient + 1) := Nat.le_of_lt (Nat.lt_mul_div_succ units hden)
        _ ≤ den * (2 ^ 53 * step) := Nat.mul_le_mul_left den (lt_gap_mul quotient)
        _ = 2 ^ 53 * (den * step) := Nat.mul_left_comm _ _ _
    have hlimit : roundDiv units (den * step) * step < limit := by
      calc roundDiv units (den * step) * step ≤ 2 ^ 53 * step := Nat.mul_le_mul_right step hbits
        _ ≤ 2 ^ 53 * gap (2 ^ 2097 - 1) := Nat.mul_le_mul_left _ (gap_mono (Nat.le_sub_one_of_lt hquotient))
        _ < limit := by decide +kernel
    have hdvd : gap (roundDiv units (den * step) * step) ∣ roundDiv units (den * step) * step := by
      have hpow : step = 2 ^ (quotient.log2 - 52) := gap_eq quotient
      rw [hpow] at hbits ⊢
      exact gap_dvd_mul_two_pow hbits _
    have hrepresentable : Representable (roundDiv units (den * step) * step) := ⟨hlimit, hdvd⟩
    unfold round
    exact congrArg isFinite (dif_pos hrepresentable)

theorem isFinite_divNat_iff {x : Double} {count : Nat} (h : 0 < count) : (x.divNat count).isFinite ↔ x.isFinite := by
  cases x with
  | finite x => simp [divNat, isFinite_round_of_representable x.negative x.representable h]
  | _ => rfl

end Double

namespace Value

theorem kind_ofDouble_iff (x : Double) : (ofDouble x).kind = .number ↔ x.isFinite := by
  cases x with
  | finite x =>
    rw [ofDouble]
    split <;> simp [kind, int]
  | _ => simp [ofDouble, kind]

theorem ofDouble_number_or_null (x : Double) : (ofDouble x).kind = .number ∨ ofDouble x = .null := by
  cases x with
  | finite x => exact .inl ((kind_ofDouble_iff _).mpr rfl)
  | _ => exact .inr rfl

end Value

namespace Transforms

/-! ### Sums of doubles -/

/-- Doubles that can be added up: each is finite, and the exact sum of what has been added up and the next one is never
rounded out of range. -/
structure StayFinite (numbers : List Double) : Prop where
  finite : ∀ x ∈ numbers, x.isFinite
  inRange : ∀ front x, front ++ [x] <+: numbers → ((sumDoubles front).scaled + x.scaled).natAbs < Double.overflow

theorem sumDoubles_concat (front : List Double) (x : Double) : sumDoubles (front ++ [x]) = sumDoubles front + x :=
  List.foldl_concat ..

theorem stayFinite_nil : StayFinite [] := by
  constructor
  · simp
  · intro front x hfront
    simp at hfront

/-- One more number can be added up if all before it can, and it with their sum. -/
theorem stayFinite_concat {front : List Double} {x : Double} :
    StayFinite (front ++ [x]) ↔
      StayFinite front ∧ x.isFinite ∧ ((sumDoubles front).scaled + x.scaled).natAbs < Double.overflow := by
  constructor
  · intro h
    refine ⟨⟨fun y hy => h.finite y (List.mem_append_left _ hy), fun start y hstart => ?_⟩, ?_, ?_⟩
    · exact h.inRange start y (hstart.trans (List.prefix_append _ _))
    · exact h.finite x (List.mem_append_right _ List.mem_cons_self)
    · exact h.inRange front x List.prefix_rfl
  · rintro ⟨hfront, hx, hrange⟩
    refine ⟨List.forall_mem_append.mpr ⟨hfront.finite, List.forall_mem_singleton.mpr hx⟩, fun start y hstart => ?_⟩
    rcases List.prefix_concat_iff.mp hstart with heq | hbefore
    · obtain ⟨rfl, rfl⟩ := List.append_singleton_inj.mp heq
      exact hrange
    · exact hfront.inRange start y hbefore

theorem isFinite_sumDoubles_iff (numbers : List Double) : (sumDoubles numbers).isFinite ↔ StayFinite numbers := by
  induction numbers using List.reverseRecOn with
  | nil => exact iff_of_true rfl stayFinite_nil
  | append_singleton front x ih => rw [sumDoubles_concat, Double.isFinite_add_iff, stayFinite_concat, ih]

/-! ### Sums and means of values -/

/-- Values whose sum is exact: all that are numeric are 64-bit integers, and so is every sum on the way. -/
structure AddExactly (values : List Value) : Prop where
  integers : ∀ v ∈ values, v.number?.isSome → v.integer?.isSome
  fit : SumsFit (values.filterMap Value.integer?)

theorem isSome_of_mapM {α β : Type} {f : α → Option β} {xs : List α} {ys : List β} (h : xs.mapM f = some ys) :
    ∀ x ∈ xs, (f x).isSome := by
  induction xs generalizing ys with
  | nil => exact nofun
  | cons x rest ih =>
    rw [List.mapM_cons] at h
    obtain ⟨y, hy, h⟩ := Option.bind_eq_some_iff.mp h
    obtain ⟨zs, hzs, -⟩ := Option.bind_eq_some_iff.mp h
    exact List.forall_mem_cons.mpr ⟨by rw [hy]; rfl, ih hzs⟩

theorem sum_of_not_addExactly {values : List Value} (h : ¬ AddExactly values) :
    sum values = .ofDouble (sumDoubles (values.filterMap Value.number?)) := by
  by_cases hintegers : ∀ v ∈ values, v.number?.isSome → v.integer?.isSome
  · exact sum_of_not_sumsFit hintegers fun hfit => h ⟨hintegers, hfit⟩
  · have hnone : (values.filter (·.number?.isSome)).mapM Value.integer? = none := by
      rw [Option.eq_none_iff_forall_ne_some]
      intro ns hns
      refine hintegers fun v hv hnumber => isSome_of_mapM hns v ?_
      exact List.mem_filter.mpr ⟨hv, hnumber⟩
    unfold sum
    dsimp only
    rw [hnone, filterMap_numeric]
    rfl

theorem kind_sum_iff (values : List Value) :
    (sum values).kind = .number ↔ AddExactly values ∨ StayFinite (values.filterMap Value.number?) := by
  by_cases h : AddExactly values
  · rw [sum_of_sumsFit h.integers h.fit]
    exact iff_of_true rfl (.inl h)
  · rw [sum_of_not_addExactly h, Value.kind_ofDouble_iff, isFinite_sumDoubles_iff, or_iff_right h]

theorem sum_number_or_null (values : List Value) : (sum values).kind = .number ∨ sum values = .null := by
  by_cases h : AddExactly values
  · exact .inl ((kind_sum_iff values).mpr (.inl h))
  · rw [sum_of_not_addExactly h]
    exact Value.ofDouble_number_or_null _

theorem kind_average_iff (values : List Value) :
    (average values).kind = .number ↔ StayFinite (values.filterMap Value.number?) := by
  unfold average
  dsimp only
  split
  next h => exact iff_of_true rfl (List.isEmpty_iff.mp h ▸ stayFinite_nil)
  next h =>
    have hcount : 0 < (values.filterMap Value.number?).length := List.length_pos_iff.mpr (mt List.isEmpty_iff.mpr h)
    rw [Value.kind_ofDouble_iff, Double.isFinite_divNat_iff hcount, isFinite_sumDoubles_iff]

theorem average_number_or_null (values : List Value) : (average values).kind = .number ∨ average values = .null := by
  unfold average
  dsimp only
  split
  · exact .inl rfl
  · exact Value.ofDouble_number_or_null _

/-- What is not numeric is passed over. -/
theorem aggregates_congr {values others : List Value}
    (h : others.filter (·.number?.isSome) = values.filter (·.number?.isSome)) :
    sum others = sum values ∧ average others = average values := by
  constructor
  · unfold sum
    rw [h]
  · unfold average
    rw [← filterMap_numeric others, h, filterMap_numeric]

/-- `sum` and `average` of an array succeed with a number or null. `sum` is a number if 64-bit integers come to an exact
sum or if the doubles can be added up, `average` in the latter case. Both are zero if nothing is numeric; and what is
not numeric is passed over. -/
theorem aggregates_numbers (params : Params) (items : List Value) :
    let values := operands params items
    let numbers := values.filterMap Value.number?
    ∃ total mean : Value,
      Transform.sum.apply params (.arr items) = .ok total ∧
      Transform.average.apply params (.arr items) = .ok mean ∧
      (total.kind = .number ∨ total = .null) ∧ (total.kind = .number ↔ AddExactly values ∨ StayFinite numbers) ∧
      (mean.kind = .number ∨ mean = .null) ∧ (mean.kind = .number ↔ StayFinite numbers) ∧
      (numbers = [] → total = .int 0 ∧ mean = .int 0) ∧
      ∀ others : List Value,
        (operands params others).filter (·.number?.isSome) = values.filter (·.number?.isSome) →
        Transform.sum.apply params (.arr others) = .ok total ∧
          Transform.average.apply params (.arr others) = .ok mean := by
  intro values numbers
  refine ⟨sum values, average values, rfl, rfl, sum_number_or_null values, kind_sum_iff values,
    average_number_or_null values, kind_average_iff values, fun hnone => ?_, fun others hothers => ?_⟩
  · have hempty : values.filter (·.number?.isSome) = ([] : List Value).filter (·.number?.isSome) := by
      refine List.filter_eq_nil_iff.mpr fun v hv => ?_
      rw [List.filterMap_eq_nil_iff.mp hnone v hv]
      exact Bool.false_ne_true
    exact aggregates_congr hempty
  · obtain ⟨htotal, hmean⟩ := aggregates_congr hothers
    exact ⟨congrArg Except.ok htotal, congrArg Except.ok hmean⟩

/-- A text that spells a number and a number, between other things: the aggregates are numbers, and the same ones for
other things between them. The other things alone come to zero. -/
theorem aggregates_numbers_beside_texts :
    let params : Params := [("field", .str "n")]
    let item (v : Value) : Value := .obj [("n", v)]
    let items := [.bool true, item (.str " 1.5 "), item (.str "x"), item (.int 2)]
    let others := [item (.str " 1.5 "), item (.arr []), item (.int 2), .null]
    let nothing := [.bool true, item (.str "x"), item (.arr []), .null]
    (∃ total mean : Value, total.kind = .number ∧ mean.kind = .number ∧
      Transform.sum.apply params (.arr items) = .ok total ∧ Transform.sum.apply params (.arr others) = .ok total ∧
      Transform.average.apply params (.arr items) = .ok mean ∧
      Transform.average.apply params (.arr others) = .ok mean) ∧
    Transform.sum.apply params (.arr nothing) = .ok (.int 0) ∧
    Transform.average.apply params (.arr nothing) = .ok (.int 0) := by
  intro params item items others nothing
  have hfinite : StayFinite ((operands params items).filterMap Value.number?) := by
    rw [← isFinite_sumDoubles_iff]
    decide +kernel
  have hsame : (operands params others).filter (·.number?.isSome) =
      (operands params items).filter (·.number?.isSome) := by rfl
  have hnothing : (operands params nothing).filterMap Value.number? = [] := by rfl
  constructor
  · obtain ⟨total, mean, htotal, hmean, -, hsum, -, haverage, -, hothers⟩ := aggregates_numbers params items
    obtain ⟨htotal', hmean'⟩ := hothers others hsame
    exact ⟨total, mean, hsum.mpr (.inr hfinite), haverage.mpr hfinite, htotal, htotal', hmean, hmean'⟩
  · obtain ⟨total, mean, htotal, hmean, -, -, -, -, hzero, -⟩ := aggregates_numbers params nothing
    obtain ⟨rfl, rfl⟩ := hzero hnothing
    exact ⟨htotal, hmean⟩

/-- A text that spells a NaN is numeric, and the sum is null. So is the mean of twice `2 ^ 1023`, as the sum is rounded
out of range. -/
theorem not_forall_aggregates_numbers :
    (¬ ∀ items : List Value, ∃ total : Value,
      Transform.sum.apply [] (.arr items) = .ok total ∧ total.kind = .number) ∧
    ¬ ∀ items : List Value, (∀ v ∈ items, v.kind = .number) → ∃ mean : Value,
      Transform.average.apply [] (.arr items) = .ok mean ∧ mean.kind = .number := by
  constructor
  · intro hall
    obtain ⟨total, htotal, hnumber⟩ := hall [.str "nan"]
    have hnull : (Transform.sum.apply [] (.arr [.str "nan"])).toOption.map Value.kind = some .null := by decide +kernel
    rw [htotal] at hnull
    simp [Except.toOption, hnumber] at hnull
  · intro hall
    let half : FiniteDouble := ⟨false, Nat.pow 2 2097, by decide +kernel⟩
    let items : List Value := [.num (.float half), .num (.float half)]
    obtain ⟨mean, hmean, hnumber⟩ := hall items (by simp [items, Value.kind])
    have hnull : (Transform.average.apply [] (.arr items)).toOption.map Value.kind = some .null := by decide +kernel
    rw [hmean] at hnull
    simp [Except.toOption, hnumber] at hnull

end Transforms

end Pipewright
