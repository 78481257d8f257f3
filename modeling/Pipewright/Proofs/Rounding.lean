import Mathlib.Algebra.Order.Ring.Nat
import Pipewright.Proofs.ValueOrder

/-!
# Rounding keeps order

A magnitude is rounded to a multiple of its gap, and the multiples of a gap hold all magnitudes with a larger one. So a
larger magnitude is never rounded to a smaller double, and one that is a multiple of its gap stays what it is. Integers
therefore keep their order as doubles, and those up to `2 ^ 53` in magnitude are kept apart.
-/
namespace Pipewright

/-! ### Quotients -/

theorem roundDiv_cases (num den : Nat) :
    roundDiv num den = num / den ∧ 2 * (num % den) ≤ den ∨
    roundDiv num den = num / den + 1 ∧ den ≤ 2 * (num % den) := by
  unfold roundDiv
  dsimp only
  split
  · omega
  · split
    · omega
    · split <;> omega

theorem le_roundDiv {k num den : Nat} (hden : 0 < den) (h : k * den ≤ num) : k ≤ roundDiv num den := by
  have hdiv : k ≤ num / den := (Nat.le_div_iff_mul_le hden).mpr h
  rcases roundDiv_cases num den with ⟨heq, -⟩ | ⟨heq, -⟩ <;> omega

theorem roundDiv_le {k num den : Nat} (hden : 0 < den) (h : num ≤ k * den) : roundDiv num den ≤ k := by
  have hparts := Nat.div_add_mod num den
  have hmod := Nat.mod_lt num hden
  by_cases hlt : num / den < k
  · rcases roundDiv_cases num den with ⟨heq, -⟩ | ⟨heq, -⟩ <;> omega
  · have hmul : den * k ≤ den * (num / den) := Nat.mul_le_mul_left den (Nat.not_lt.mp hlt)
    rw [Nat.mul_comm] at h
    have hquotient : num / den = k := Nat.eq_of_mul_eq_mul_left hden (by omega)
    rcases roundDiv_cases num den with ⟨heq, -⟩ | ⟨heq, htwice⟩
    · omega
    · rw [hquotient] at hparts
      omega

/-- Of two numbers with one quotient, only the greater one can be rounded up alone. -/
theorem roundDiv_mono {den m n : Nat} (h : m ≤ n) : roundDiv m den ≤ roundDiv n den := by
  have hdiv : m / den ≤ n / den := Nat.div_le_div_right h
  have hm := Nat.div_add_mod m den
  have hn := Nat.div_add_mod n den
  rcases roundDiv_cases m den with ⟨hdown, -⟩ | ⟨hup, hhalf⟩
  · rcases roundDiv_cases n den with ⟨heq, -⟩ | ⟨heq, -⟩ <;> omega
  · rcases roundDiv_cases n den with ⟨hdown, hhalf'⟩ | ⟨heq, -⟩
    · by_cases hquotient : m / den = n / den
      · rw [hquotient] at hm
        obtain rfl : m = n := by omega
        exact Nat.le_refl _
      · omega
    · omega

namespace Double

/-! ### Gaps -/

theorem gap_eq (units : Nat) : gap units = 2 ^ (units.log2 - 52) := Nat.pow_eq

theorem gap_pos (units : Nat) : 0 < gap units := by
  rw [gap_eq]
  exact Nat.two_pow_pos _

/-- A magnitude has at most 53 significant bits above its gap. -/
theorem lt_gap_mul (units : Nat) : units < 2 ^ 53 * gap units := by
  have hlt := Nat.lt_log2_self (n := units)
  have hle : 2 ^ (units.log2 + 1) ≤ 2 ^ (53 + (units.log2 - 52)) := Nat.pow_le_pow_right (by decide) (by omega)
  rw [gap_eq, ← Nat.pow_add]
  omega

theorem gap_le {units : Nat} (h : 0 < units) : gap units ≤ units := by
  have hself := Nat.log2_self_le (Nat.pos_iff_ne_zero.mp h)
  have hle : 2 ^ (units.log2 - 52) ≤ 2 ^ units.log2 := Nat.pow_le_pow_right (by decide) (by omega)
  rw [gap_eq]
  omega

theorem log2_mono {m n : Nat} (h : m ≤ n) : m.log2 ≤ n.log2 := by
  by_cases hm : m = 0
  · subst hm
    simp
  · exact (Nat.le_log2 (by omega)).mpr (Nat.le_trans (Nat.log2_self_le hm) h)

theorem gap_mono {m n : Nat} (h : m ≤ n) : gap m ≤ gap n := by
  rw [gap_eq, gap_eq]
  exact Nat.pow_le_pow_right (by decide) (Nat.sub_le_sub_right (log2_mono h) 52)

/-- Up to 53 significant bits are kept, wherever they stand. -/
theorem gap_dvd_mul_two_pow {n : Nat} (h : n ≤ 2 ^ 53) (k : Nat) : gap (n * 2 ^ k) ∣ n * 2 ^ k := by
  rw [gap_eq]
  by_cases hn : n = 0
  · subst hn
    simp
  · have hunits : n * 2 ^ k ≠ 0 := Nat.mul_ne_zero hn (Nat.ne_of_gt (Nat.two_pow_pos k))
    by_cases hlt : n < 2 ^ 53
    · have hlog : (n * 2 ^ k).log2 < 53 + k := by
        rw [Nat.log2_lt hunits, Nat.pow_add]
        exact Nat.mul_lt_mul_of_pos_right hlt (Nat.two_pow_pos k)
      exact Nat.dvd_mul_left_of_dvd (Nat.pow_dvd_pow 2 (by omega)) n
    · obtain rfl : n = 2 ^ 53 := by omega
      rw [← Nat.pow_add, Nat.log2_two_pow]
      exact Nat.pow_dvd_pow 2 (by omega)

/-! ### Magnitudes -/

/-- The multiple of its gap that a magnitude is rounded to, before the limit is looked at. -/
def rounded (units : Nat) : Nat := roundDiv units (gap units) * gap units

theorem rounded_le (units : Nat) : rounded units ≤ 2 ^ 53 * gap units :=
  Nat.mul_le_mul_right _ (roundDiv_le (gap_pos units) (Nat.le_of_lt (lt_gap_mul units)))

theorem gap_dvd_rounded (units : Nat) : gap (rounded units) ∣ rounded units := by
  have hle : roundDiv units (gap units) ≤ 2 ^ 53 := roundDiv_le (gap_pos units) (Nat.le_of_lt (lt_gap_mul units))
  unfold rounded
  rw [gap_eq units] at hle ⊢
  exact gap_dvd_mul_two_pow hle _

theorem rounded_of_dvd {units : Nat} (h : gap units ∣ units) : rounded units = units := by
  have hself : units / gap units * gap units = units := Nat.div_mul_cancel h
  have hdiv : roundDiv units (gap units) = units / gap units :=
    Nat.le_antisymm (roundDiv_le (gap_pos units) (Nat.le_of_eq hself.symm))
      (le_roundDiv (gap_pos units) (Nat.le_of_eq hself))
  rw [rounded, hdiv, hself]

theorem rounded_pos {units : Nat} (h : 0 < units) : 0 < rounded units := by
  have hone : 1 * gap units ≤ units := by
    rw [Nat.one_mul]
    exact gap_le h
  exact Nat.mul_pos (le_roundDiv (gap_pos units) hone) (gap_pos units)

/-- Where the gap grows, a power of two lies between what the two magnitudes are rounded to. -/
theorem rounded_mono {m n : Nat} (h : m ≤ n) : rounded m ≤ rounded n := by
  have hlog := log2_mono h
  by_cases heq : m.log2 - 52 = n.log2 - 52
  · have hgap : gap m = gap n := by rw [gap_eq, gap_eq, heq]
    rw [rounded, rounded, hgap]
    exact Nat.mul_le_mul_right _ (roundDiv_mono h)
  · have hn : n ≠ 0 := by
      rintro rfl
      rw [Nat.log2_zero] at hlog heq
      omega
    have hself : 2 ^ n.log2 ≤ n := Nat.log2_self_le hn
    have hgrid : 2 ^ 52 * gap n = 2 ^ n.log2 := by
      rw [gap_eq, ← Nat.pow_add]
      congr 1
      omega
    calc rounded m ≤ 2 ^ 53 * gap m := rounded_le m
      _ = 2 ^ (53 + (m.log2 - 52)) := by rw [gap_eq, ← Nat.pow_add]
      _ ≤ 2 ^ (52 + (n.log2 - 52)) := Nat.pow_le_pow_right (by decide) (by omega)
      _ = 2 ^ 52 * gap n := by rw [gap_eq, ← Nat.pow_add]
      _ ≤ rounded n := Nat.mul_le_mul_right _ (le_roundDiv (gap_pos n) (by omega))

/-! ### Doubles of integers -/

theorem representable_rounded_iff {units : Nat} : Representable (rounded units) ↔ rounded units < limit :=
  ⟨And.left, fun h => ⟨h, gap_dvd_rounded units⟩⟩

theorem round_one (negative : Bool) (units : Nat) :
    round negative units 1 =
      if h : Representable (rounded units) then .finite ⟨negative, rounded units, h⟩ else .infinite negative := by
  unfold round rounded
  simp only [Nat.div_one, Nat.one_mul]

theorem scaled_round_one (negative : Bool) (units : Nat) :
    (round negative units 1).scaled =
      if negative then -((min (rounded units) limit : Nat) : Int) else (min (rounded units) limit : Nat) := by
  rw [round_one]
  split
  next h =>
    rw [Nat.min_eq_left (Nat.le_of_lt (representable_rounded_iff.mp h))]
    rfl
  next h =>
    rw [Nat.min_eq_right (Nat.not_lt.mp fun hlt => h (representable_rounded_iff.mpr hlt))]
    rfl

/-- The magnitude of the double of an integer, the limit if it is infinite. -/
def magnitudeOf (n : Int) : Nat := min (rounded (n.natAbs * one)) limit

theorem scaled_ofInt (n : Int) : (ofInt n).scaled = if n < 0 then -(magnitudeOf n : Int) else magnitudeOf n := by
  unfold ofInt magnitudeOf
  rw [scaled_round_one]
  simp only [decide_eq_true_eq]

theorem magnitudeOf_mono {m n : Int} (h : m.natAbs ≤ n.natAbs) : magnitudeOf m ≤ magnitudeOf n := by
  have hle : rounded (m.natAbs * one) ≤ rounded (n.natAbs * one) := rounded_mono (Nat.mul_le_mul_right one h)
  unfold magnitudeOf
  omega

theorem one_pos : 0 < one := by decide +kernel

theorem magnitudeOf_pos {n : Int} (h : n ≠ 0) : 0 < magnitudeOf n := by
  have hpos : 0 < rounded (n.natAbs * one) := rounded_pos (Nat.mul_pos (Int.natAbs_pos.mpr h) one_pos)
  have hlimit := limit_pos
  unfold magnitudeOf
  omega

/-- Integers keep their order as doubles. -/
theorem scaled_ofInt_mono {m n : Int} (h : m ≤ n) : (ofInt m).scaled ≤ (ofInt n).scaled := by
  rw [scaled_ofInt, scaled_ofInt]
  by_cases hm : m < 0
  · by_cases hn : n < 0
    · have hmagnitude : magnitudeOf n ≤ magnitudeOf m := magnitudeOf_mono (by omega)
      rw [if_pos hm, if_pos hn]
      omega
    · rw [if_pos hm, if_neg hn]
      omega
  · have hmagnitude : magnitudeOf m ≤ magnitudeOf n := magnitudeOf_mono (by omega)
    rw [if_neg hm, if_neg (by omega)]
    omega

theorem round_one_congr (negative : Bool) {u v : Nat} (h : min (rounded u) limit = min (rounded v) limit) :
    round negative u 1 = round negative v 1 := by
  rw [round_one, round_one]
  by_cases hu : rounded u < limit
  · have heq : rounded u = rounded v := by omega
    simp only [heq]
  · have hv : ¬ rounded v < limit := by omega
    rw [dif_neg (mt representable_rounded_iff.mp hu), dif_neg (mt representable_rounded_iff.mp hv)]

/-- The doubles of integers are told apart by their units: zero is the double of no negative integer. -/
theorem ofInt_eq_of_scaled {m n : Int} (h : (ofInt m).scaled = (ofInt n).scaled) : ofInt m = ofInt n := by
  rw [scaled_ofInt, scaled_ofInt] at h
  by_cases hm : m < 0
  · have hpos : 0 < magnitudeOf m := magnitudeOf_pos (by omega)
    by_cases hn : n < 0
    · rw [if_pos hm, if_pos hn] at h
      have hmagnitude : magnitudeOf m = magnitudeOf n := by omega
      unfold ofInt
      rw [decide_eq_true hm, decide_eq_true hn]
      exact round_one_congr true hmagnitude
    · rw [if_pos hm, if_neg hn] at h
      omega
  · by_cases hn : n < 0
    · have hpos : 0 < magnitudeOf n := magnitudeOf_pos (by omega)
      rw [if_neg hm, if_pos hn] at h
      omega
    · rw [if_neg hm, if_neg hn] at h
      have hmagnitude : magnitudeOf m = magnitudeOf n := by omega
      unfold ofInt
      rw [decide_eq_false hm, decide_eq_false hn]
      exact round_one_congr false hmagnitude

theorem scaled_ofInt_lt {m n : Int} (h : m < n) (hne : ofInt m ≠ ofInt n) : (ofInt m).scaled < (ofInt n).scaled := by
  have hle := scaled_ofInt_mono (Int.le_of_lt h)
  have hne' : (ofInt m).scaled ≠ (ofInt n).scaled := mt ofInt_eq_of_scaled hne
  omega

/-- Integers up to `2 ^ 53` in magnitude are doubles. -/
theorem magnitudeOf_of_le {n : Int} (h : n.natAbs ≤ 2 ^ 53) : magnitudeOf n = n.natAbs * one := by
  have hone : one = 2 ^ 1074 := by decide +kernel
  have hlimit : 2 ^ 53 * one ≤ limit := by decide +kernel
  have hle : n.natAbs * one ≤ 2 ^ 53 * one := Nat.mul_le_mul_right one h
  have hdvd : gap (n.natAbs * one) ∣ n.natAbs * one := by
    rw [hone]
    exact gap_dvd_mul_two_pow h 1074
  unfold magnitudeOf
  rw [rounded_of_dvd hdvd]
  omega

theorem scaled_ofInt_of_le {n : Int} (h : n.natAbs ≤ 2 ^ 53) : (ofInt n).scaled = n * one := by
  rw [scaled_ofInt, magnitudeOf_of_le h, Int.natCast_mul]
  split
  next hneg => rw [Int.ofNat_natAbs_of_nonpos (Int.le_of_lt hneg), Int.neg_mul, Int.neg_neg]
  next hneg => rw [Int.natAbs_of_nonneg (Int.not_lt.mp hneg)]

end Double

end Pipewright
