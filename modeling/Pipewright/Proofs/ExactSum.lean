import Mathlib.Algebra.Module.NatInt
import Mathlib.Algebra.Order.BigOperators.Group.List
import Mathlib.Data.List.TakeWhile
import Pipewright.Transforms.Catalog

/-!
# When a sum of integers is exact

Integers are added from the left as 64-bit ones. As long as every sum on the way is one, the sum is exact, and so it is
in every order if what is gained in all and what is lost in all are 64-bit integers. Otherwise doubles are added, even
where the total itself is a 64-bit integer.
-/
namespace Pipewright

/-! ### Integers in text -/

namespace Text

theorem fitsInt64_iff {n : Int} : fitsInt64 n ↔ -9223372036854775808 ≤ n ∧ n ≤ 9223372036854775807 := by
  simp [fitsInt64]

theorem digits?_eq_some {cs : List Char} {n : Nat} (h : digits? cs = some n) : cs ≠ [] ∧ cs.all Char.isDigit := by
  unfold digits? at h
  split at h
  · cases h
  next hdigits =>
    rw [Bool.or_eq_true, not_or] at hdigits
    exact ⟨by simpa using hdigits.1, by simpa using hdigits.2⟩

end Text

/-- Digits alone are an unsigned decimal. -/
theorem Decimal.unsigned?_of_digits (negative : Bool) {cs : List Char} {n : Nat} (h : Text.digits? cs = some n) :
    ∃ d, unsigned? negative cs = some d := by
  obtain ⟨hne, hdigits⟩ := Text.digits?_eq_some h
  have hspan : cs.span Char.isDigit = (cs, []) := by
    rw [List.span_eq_takeWhile_dropWhile, List.takeWhile_eq_self_iff.mpr (List.all_eq_true.mp hdigits),
      List.dropWhile_eq_nil_iff.mpr (List.all_eq_true.mp hdigits)]
  unfold unsigned?
  rw [hspan]
  simp [hne, exponent?]

namespace Double

/-- What reads as an integer reads as a double: the sign is taken off alike, and digits are left. -/
theorem read?_of_integer {cs : List Char} {n : Int} (h : Text.readInt64? cs = some n) : (read? cs).isSome := by
  obtain ⟨hn, -⟩ := Option.filter_eq_some_iff.mp h
  unfold read?
  split at hn
  next body =>
    cases hm : Text.digits? body with
    | none =>
      rw [hm] at hn
      cases hn
    | some m =>
      obtain ⟨d, hd⟩ := Decimal.unsigned?_of_digits true hm
      simp only [hd, Option.isSome_some]
  next body =>
    obtain ⟨m, hm, -⟩ := Option.map_eq_some_iff.mp hn
    obtain ⟨d, hd⟩ := Decimal.unsigned?_of_digits false hm
    simp only [hd, Option.isSome_some]
  next =>
    obtain ⟨m, hm, -⟩ := Option.map_eq_some_iff.mp hn
    obtain ⟨d, hd⟩ := Decimal.unsigned?_of_digits false hm
    simp only [hd, Option.isSome_some]

end Double

theorem Value.number?_of_integer {v : Value} (h : v.integer?.isSome) : v.number?.isSome := by
  cases v with
  | num n => rfl
  | str s =>
    obtain ⟨n, hn⟩ := Option.isSome_iff_exists.mp h
    exact Double.read?_of_integer hn
  | _ => cases h

namespace Transforms

/-! ### Sums on the way -/

/-- Every sum of the first so many integers, all of them included, is a 64-bit integer. -/
def SumsFit (ns : List Int) : Prop := ∀ front : List Int, front <+: ns → Text.fitsInt64 front.sum

/-- The positive integers together. -/
def gains (ns : List Int) : Int := (ns.filter (0 < ·)).sum

/-- The negative integers together. -/
def losses (ns : List Int) : Int := (ns.filter (· < 0)).sum

theorem exactSum_eq_some_iff {total sum : Int} {ns : List Int} :
    exactSum total ns = some sum ↔
      sum = total + ns.sum ∧ ∀ front : List Int, front <+: ns → front ≠ [] → Text.fitsInt64 (total + front.sum) := by
  induction ns generalizing total with
  | nil =>
    rw [exactSum, List.sum_nil, Int.add_zero, Option.some_inj, eq_comm]
    refine (and_iff_left ?_).symm
    intro front hfront hne
    exact absurd (List.prefix_nil.mp hfront) hne
  | cons n rest ih =>
    -- A front that is not empty is the head alone, or the head before a front of the rest.
    have hfronts : (∀ front : List Int, front <+: n :: rest → front ≠ [] → Text.fitsInt64 (total + front.sum)) ↔
        Text.fitsInt64 (total + n) ∧
          ∀ front : List Int, front <+: rest → front ≠ [] → Text.fitsInt64 (total + n + front.sum) := by
      constructor
      · intro h
        refine ⟨by simpa using h [n] (by simp) (by simp), fun front hfront _ => ?_⟩
        have hcons := h (n :: front) (List.cons_prefix_cons.mpr ⟨rfl, hfront⟩) (by simp)
        rwa [List.sum_cons, ← Int.add_assoc] at hcons
      · rintro ⟨hfirst, hrest⟩ front hfront hne
        rcases List.prefix_cons_iff.mp hfront with rfl | ⟨more, rfl, hmore⟩
        · exact absurd rfl hne
        · rw [List.sum_cons, ← Int.add_assoc]
          by_cases hempty : more = []
          · subst hempty
            simpa using hfirst
          · exact hrest more hmore hempty
    rw [exactSum, hfronts, List.sum_cons, ← Int.add_assoc]
    split
    next hfits => rw [ih]; simp [hfits]
    next hfits => simp [hfits]

theorem exactSum_of_sumsFit {ns : List Int} (h : SumsFit ns) : exactSum 0 ns = some ns.sum := by
  refine exactSum_eq_some_iff.mpr ⟨(Int.zero_add _).symm, fun front hfront _ => ?_⟩
  rw [Int.zero_add]
  exact h front hfront

theorem exactSum_of_not_sumsFit {ns : List Int} (h : ¬ SumsFit ns) : exactSum 0 ns = none := by
  rw [Option.eq_none_iff_forall_ne_some]
  intro sum hsum
  obtain ⟨-, hfronts⟩ := exactSum_eq_some_iff.mp hsum
  apply h
  intro front hfront
  by_cases hempty : front = []
  · subst hempty
    decide
  · rw [← Int.zero_add front.sum]
    exact hfronts front hfront hempty

theorem gains_add_losses (ns : List Int) : gains ns + losses ns = ns.sum := by
  induction ns with
  | nil => rfl
  | cons n rest ih =>
    unfold gains losses at ih ⊢
    by_cases hpos : 0 < n <;> by_cases hneg : n < 0 <;> simp [hpos, hneg] <;> omega

theorem gains_nonneg (ns : List Int) : 0 ≤ gains ns := by
  apply List.sum_nonneg
  intro n hn
  have hpos : 0 < n := by simpa using List.of_mem_filter hn
  omega

theorem losses_nonpos (ns : List Int) : losses ns ≤ 0 := by
  have hle : losses ns ≤ (ns.filter (· < 0)).length • 0 := by
    apply List.sum_le_card_nsmul
    intro n hn
    have hneg : n < 0 := by simpa using List.of_mem_filter hn
    omega
  rwa [smul_zero] at hle

theorem sum_bounds (ns : List Int) : losses ns ≤ ns.sum ∧ ns.sum ≤ gains ns := by
  have htotal := gains_add_losses ns
  have hgains := gains_nonneg ns
  have hlosses := losses_nonpos ns
  omega

/-- Whatever the order, a sum on the way lies between all losses and all gains. -/
theorem sumsFit_of_gains {ns : List Int} (hgains : Text.fitsInt64 (gains ns)) (hlosses : Text.fitsInt64 (losses ns)) :
    SumsFit ns := by
  rintro front ⟨back, rfl⟩
  have hfront := sum_bounds front
  have hmore : gains (front ++ back) = gains front + gains back := by simp [gains]
  have hless : losses (front ++ back) = losses front + losses back := by simp [losses]
  have hback := gains_nonneg back
  have hback' := losses_nonpos back
  rw [Text.fitsInt64_iff] at hgains hlosses ⊢
  omega

theorem gains_perm {ms ns : List Int} (h : ms.Perm ns) : gains ms = gains ns := (h.filter _).sum_eq

theorem losses_perm {ms ns : List Int} (h : ms.Perm ns) : losses ms = losses ns := (h.filter _).sum_eq

/-! ### Sums of values -/

/-- The integers among what is added up, numbers and strings alike. -/
def integers (params : Params) (items : List Value) : List Int := (operands params items).filterMap Value.integer?

/-- The numbers of some values are those of the numeric ones. -/
theorem filterMap_numeric (values : List Value) :
    (values.filter (·.number?.isSome)).filterMap Value.number? = values.filterMap Value.number? := by
  rw [List.filterMap_filter]
  refine congrArg (List.filterMap · values) (funext fun v => ?_)
  cases v.number? <;> rfl

theorem mapM_integer? {values : List Value} (h : ∀ v ∈ values, v.number?.isSome → v.integer?.isSome) :
    (values.filter (·.number?.isSome)).mapM Value.integer? = some (values.filterMap Value.integer?) := by
  induction values with
  | nil => rfl
  | cons v rest ih =>
    have hrest := ih fun w hw => h w (List.mem_cons_of_mem _ hw)
    by_cases hnumber : v.number?.isSome
    · obtain ⟨n, hn⟩ := Option.isSome_iff_exists.mp (h v List.mem_cons_self hnumber)
      rw [List.filter_cons, if_pos hnumber, List.mapM_cons, List.filterMap_cons_some hn, hn, hrest]
      rfl
    · have hn : v.integer? = none := by
        rw [← Option.not_isSome_iff_eq_none]
        exact fun hinteger => hnumber (Value.number?_of_integer hinteger)
      rw [List.filter_cons, if_neg hnumber, List.filterMap_cons_none hn, hrest]

section

variable {values : List Value} (hintegers : ∀ v ∈ values, v.number?.isSome → v.integer?.isSome)

include hintegers

theorem sum_of_sumsFit (h : SumsFit (values.filterMap Value.integer?)) :
    sum values = .int (values.filterMap Value.integer?).sum := by
  unfold sum
  dsimp only
  rw [mapM_integer? hintegers, Option.bind_some, exactSum_of_sumsFit h]

theorem sum_of_not_sumsFit (h : ¬ SumsFit (values.filterMap Value.integer?)) :
    sum values = .ofDouble (sumDoubles (values.filterMap Value.number?)) := by
  unfold sum
  dsimp only
  rw [mapM_integer? hintegers, Option.bind_some, exactSum_of_not_sumsFit h, filterMap_numeric]

end

/-- Let all numeric values that are added up be 64-bit integers. In any order of them, and whatever else stands between
them, the sum is exact if all sums on the way are 64-bit integers, and a sum of doubles otherwise. It is exact in every
order if all gains come to a 64-bit integer and so do all losses. -/
theorem sum_exact (params : Params) (items : List Value)
    (hintegers : ∀ v ∈ operands params items, v.number?.isSome → v.integer?.isSome) :
    (∀ others : List Value, others.Perm items → SumsFit (integers params others) →
      Transform.sum.apply params (.arr others) = .ok (.int (integers params items).sum)) ∧
    (∀ others : List Value, others.Perm items → ¬ SumsFit (integers params others) →
      Transform.sum.apply params (.arr others) =
        .ok (.ofDouble (sumDoubles ((operands params others).filterMap Value.number?)))) ∧
    (Text.fitsInt64 (gains (integers params items)) → Text.fitsInt64 (losses (integers params items)) →
      ∀ others : List Value, others.Perm items →
        Transform.sum.apply params (.arr others) = .ok (.int (integers params items).sum)) := by
  have hothers : ∀ others : List Value, others.Perm items →
      (integers params others).Perm (integers params items) ∧
        ∀ v ∈ operands params others, v.number?.isSome → v.integer?.isSome := by
    intro others hperm
    have hoperands : (operands params others).Perm (operands params items) := hperm.map _
    exact ⟨hoperands.filterMap _, fun v hv => hintegers v (hoperands.mem_iff.mp hv)⟩
  have hexact : ∀ others : List Value, others.Perm items → SumsFit (integers params others) →
      Transform.sum.apply params (.arr others) = .ok (.int (integers params items).sum) := by
    intro others hperm hfits
    obtain ⟨hsame, hall⟩ := hothers others hperm
    rw [← hsame.sum_eq]
    exact congrArg Except.ok (sum_of_sumsFit hall hfits)
  refine ⟨hexact, fun others hperm hfits => ?_, fun hgains hlosses others hperm => hexact others hperm ?_⟩
  · exact congrArg Except.ok (sum_of_not_sumsFit (hothers others hperm).2 hfits)
  · have hsame := (hothers others hperm).1
    rw [← gains_perm hsame] at hgains
    rw [← losses_perm hsame] at hlosses
    exact sumsFit_of_gains hgains hlosses

/-- `2 ^ 63 - 6`, a text, `-5` written as text and 5, under a field: the total is exact from either end. -/
theorem sum_exact_reversed :
    let params : Params := [("field", .str "n")]
    let item (v : Value) : Value := .obj [("n", v)]
    let items := [item (.int 9223372036854775802), item (.str "x"), item (.str " -5 "), item (.int 5), .null]
    (∀ v ∈ operands params items, v.number?.isSome → v.integer?.isSome) ∧ SumsFit (integers params items) ∧
      Text.fitsInt64 (gains (integers params items)) ∧ Text.fitsInt64 (losses (integers params items)) ∧
      Transform.sum.apply params (.arr items) = .ok (.int 9223372036854775802) ∧
      Transform.sum.apply params (.arr items.reverse) = .ok (.int 9223372036854775802) := by
  intro params item items
  have hintegers : ∀ v ∈ operands params items, v.number?.isSome → v.integer?.isSome := by decide +kernel
  have hlist : integers params items = [9223372036854775802, -5, 5] := by decide +kernel
  have hgains : Text.fitsInt64 (gains (integers params items)) := by
    rw [hlist]
    decide
  have hlosses : Text.fitsInt64 (losses (integers params items)) := by
    rw [hlist]
    decide
  have hfits : SumsFit (integers params items) := sumsFit_of_gains hgains hlosses
  have htotal : (integers params items).sum = 9223372036854775802 := by
    rw [hlist]
    rfl
  obtain ⟨hexact, -, horders⟩ := sum_exact params items hintegers
  rw [htotal] at hexact horders
  exact ⟨hintegers, hfits, hgains, hlosses, hexact items (.refl _) hfits,
    horders hgains hlosses items.reverse (List.reverse_perm items)⟩

/-- `2 ^ 63 - 1`, 1 and `-1` come to `2 ^ 63 - 1`. The sum of the first two is no 64-bit integer, and so what is
answered is a double. -/
theorem not_forall_sum_exact :
    ¬ ∀ items : List Value, (∀ v ∈ items, v.number?.isSome → v.integer?.isSome) →
      Text.fitsInt64 (items.filterMap Value.integer?).sum →
      Transform.sum.apply [] (.arr items) = .ok (.int (items.filterMap Value.integer?).sum) := by
  intro hall
  let items : List Value := [.int 9223372036854775807, .int 1, .int (-1)]
  have hintegers : ∀ v ∈ items, v.number?.isSome → v.integer?.isSome := by decide +kernel
  have htotal : (items.filterMap Value.integer?).sum = 9223372036854775807 := by decide +kernel
  have h := hall items hintegers (by rw [htotal]; decide)
  have hdouble : (Transform.sum.apply [] (.arr items)).toOption.bind Value.integer? = none := by decide +kernel
  rw [h, htotal] at hdouble
  cases hdouble

end Transforms

end Pipewright
