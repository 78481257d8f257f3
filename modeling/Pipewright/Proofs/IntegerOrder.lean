import Pipewright.Proofs.Rounding
import Pipewright.Proofs.StableSort

/-!
# How integers are ordered

Integers are compared as the doubles next to them. That never turns their order round, and it is their order where the
doubles differ. Two integers of one double compare as equal, which happens only beyond `2 ^ 53`: there a sort leaves
them as they stand, and the least and the greatest of a list need not be the true ones.
-/
namespace Pipewright

/-- Any two different integers of a list have different doubles. -/
def Double.Separates (ns : List Int) : Prop := ∀ m ∈ ns, ∀ n ∈ ns, Double.ofInt m = Double.ofInt n → m = n

instance (ns : List Int) : Decidable (Double.Separates ns) := inferInstanceAs (Decidable (∀ m ∈ ns, _))

namespace Value

/-! ### Two integers -/

theorem compare_int (m n : Int) :
    compare (.int m) (.int n) = Ord.compare (Double.ofInt m).scaled (Double.ofInt n).scaled :=
  compareNumbers_eq (.int m) (.int n)

/-- Two integers of different doubles are compared as integers. -/
theorem compare_int_of_separate {m n : Int} (h : Double.ofInt m = Double.ofInt n → m = n) :
    compare (.int m) (.int n) = Ord.compare m n := by
  rw [compare_int]
  rcases Int.lt_trichotomy m n with hlt | rfl | hgt
  · have hscaled := Double.scaled_ofInt_lt hlt fun heq => Int.ne_of_lt hlt (h heq)
    rw [Int.compare_eq_lt.mpr hlt, Int.compare_eq_lt.mpr hscaled]
  · rw [Std.ReflOrd.compare_self, Std.ReflOrd.compare_self]
  · have hscaled := Double.scaled_ofInt_lt hgt fun heq => Int.ne_of_gt hgt (h heq.symm)
    rw [Int.compare_eq_gt.mpr hgt, Int.compare_eq_gt.mpr hscaled]

theorem compare_int_eq_iff {m n : Int} :
    compare (.int m) (.int n) = Ord.compare m n ↔ (Double.ofInt m = Double.ofInt n → m = n) := by
  constructor
  · intro h heq
    rw [compare_int, heq, Std.ReflOrd.compare_self] at h
    exact Int.compare_eq_eq.mp h.symm
  · exact compare_int_of_separate

/-- Rounding does not turn the order of two integers round. -/
theorem compare_int_ne_gt {m n : Int} (h : m ≤ n) : compare (.int m) (.int n) ≠ .gt := by
  have hle := Double.scaled_ofInt_mono h
  rw [compare_int]
  intro hgt
  have hlt := Int.compare_eq_gt.mp hgt
  omega

theorem compare_int_of_le {m n : Int} (hm : m.natAbs ≤ 2 ^ 53) (hn : n.natAbs ≤ 2 ^ 53) :
    compare (.int m) (.int n) = Ord.compare m n := by
  apply compare_int_of_separate
  intro h
  have hscaled : m * Double.one = n * Double.one := by
    rw [← Double.scaled_ofInt_of_le hm, ← Double.scaled_ofInt_of_le hn, h]
  exact Int.eq_of_mul_eq_mul_right (Int.ne_of_gt (Int.natCast_pos.mpr Double.one_pos)) hscaled

end Value

namespace Transforms

/-! ### Lists of integers -/

theorem operands_of_whole {params : Params} (h : textParam params "field" = none) (items : List Value) :
    operands params items = items := by
  rw [operands, h]
  exact List.map_id items

/-- Sorted upwards, integers that their doubles keep apart ascend. -/
theorem sortBy_integers {ns : List Int} (h : Double.Separates ns) :
    ∃ ms : List Int, ms.Perm ns ∧ ms.Pairwise (· ≤ ·) ∧
      sortBy (keyOf none) false (ns.map .int) = ms.map .int := by
  let le (m n : Int) : Bool := (Value.compare (.int m) (.int n)).isLE
  have hperm : (ns.mergeSort le).Perm ns := List.mergeSort_perm ns le
  have hmap : sortBy (keyOf none) false (ns.map .int) = (ns.mergeSort le).map .int :=
    (List.map_mergeSort (f := Value.int) fun m _ n _ => rfl).symm
  refine ⟨ns.mergeSort le, hperm, ?_, hmap⟩
  have hsorted := pairwise_sortBy (keyOf none) false (ns.map .int)
  rw [hmap, List.pairwise_map] at hsorted
  refine hsorted.imp_of_mem fun {m n} hm hn hle => ?_
  have hcompare := Value.compare_int_of_separate (h m (hperm.mem_iff.mp hm) n (hperm.mem_iff.mp hn))
  change (Value.compare (.int m) (.int n)).isLE = true at hle
  rw [hcompare] at hle
  exact Int.isLE_compare.mp hle

theorem isLT_compare_int {m n : Int} (h : Double.ofInt m = Double.ofInt n → m = n) :
    (Value.compare (.int n) (.int m)).isLT ↔ n < m := by
  rw [Value.compare_int_of_separate fun heq => (h heq.symm).symm, Ordering.isLT_iff_eq_lt, Int.compare_eq_lt]

theorem lesser_int {m n : Int} (h : Double.ofInt m = Double.ofInt n → m = n) :
    lesser (.int m) (.int n) = .int (min m n) := by
  unfold lesser
  by_cases hlt : n < m
  · rw [if_pos ((isLT_compare_int h).mpr hlt), Int.min_eq_right (Int.le_of_lt hlt)]
  · rw [if_neg (mt (isLT_compare_int h).mp hlt), Int.min_eq_left (Int.not_lt.mp hlt)]

theorem greater_int {m n : Int} (h : Double.ofInt m = Double.ofInt n → m = n) :
    greater (.int m) (.int n) = .int (max m n) := by
  unfold greater
  by_cases hlt : n < m
  · rw [if_pos ((isLT_compare_int h).mpr hlt), Int.max_eq_left (Int.le_of_lt hlt)]
  · rw [if_neg (mt (isLT_compare_int h).mp hlt), Int.max_eq_right (Int.not_lt.mp hlt)]

/-- What a choice between two integers comes to, it comes to all along a list. -/
theorem foldl_integers {choose : Value → Value → Value} {f : Int → Int → Int}
    (hchoose : ∀ {m n : Int}, (Double.ofInt m = Double.ofInt n → m = n) → choose (.int m) (.int n) = .int (f m n))
    (hf : ∀ m n, f m n = m ∨ f m n = n) {first : Int} {rest : List Int} (h : Double.Separates (first :: rest)) :
    (rest.map .int).foldl choose (.int first) = .int (rest.foldl f first) := by
  induction rest generalizing first with
  | nil => rfl
  | cons next rest ih =>
    rw [List.map_cons, List.foldl_cons, List.foldl_cons, hchoose (h first (by simp) next (by simp))]
    -- The number that is kept is one of the two, so that the list goes on to be kept apart.
    have hkept : ∀ m ∈ f first next :: rest, m ∈ first :: next :: rest := by
      intro m hm
      rcases hf first next with heq | heq <;> rw [heq] at hm <;> grind
    exact ih fun m hm n hn => h m (hkept m hm) n (hkept n hn)

theorem pick_integers {choose : Value → Value → Value} {f : Int → Int → Int}
    (hchoose : ∀ {m n : Int}, (Double.ofInt m = Double.ofInt n → m = n) → choose (.int m) (.int n) = .int (f m n))
    (hf : ∀ m n, f m n = m ∨ f m n = n) {first : Int} {rest : List Int} (h : Double.Separates (first :: rest)) :
    pick choose ((first :: rest).map .int) = .int (rest.foldl f first) := by
  have hfilter : ((first :: rest).map Value.int).filter (!·.isNull) = (first :: rest).map Value.int := by
    apply List.filter_eq_self.mpr
    intro v hv
    obtain ⟨n, -, rfl⟩ := List.mem_map.mp hv
    rfl
  rw [pick, hfilter]
  exact foldl_integers hchoose hf h

/-- Integers are never ordered the wrong way round. They are ordered as integers just if they are equal or their doubles
differ, as those up to `2 ^ 53` in magnitude do. Where this holds throughout a list of integers, a sort upwards puts
them in order, and the least and the greatest are found; of an empty list they are null. -/
theorem integers_ordered (params : Params) (hupwards : descending params = .ok false)
    (hwhole : textParam params "field" = none) :
    (∀ m n : Int, m ≤ n → Value.compare (.int m) (.int n) ≠ .gt) ∧
    (∀ m n : Int, Value.compare (.int m) (.int n) = compare m n ↔ (Double.ofInt m = Double.ofInt n → m = n)) ∧
    (∀ m n : Int, m.natAbs ≤ 2 ^ 53 → n.natAbs ≤ 2 ^ 53 → Value.compare (.int m) (.int n) = compare m n) ∧
    ∀ ns : List Int, Double.Separates ns →
      (∃ ms : List Int, ms.Perm ns ∧ ms.Pairwise (· ≤ ·) ∧
        Transform.sort.apply params (.arr (ns.map .int)) = .ok (.arr (ms.map .int))) ∧
      Transform.min.apply params (.arr (ns.map .int)) = .ok ((ns.min?.map Value.int).getD .null) ∧
      Transform.max.apply params (.arr (ns.map .int)) = .ok ((ns.max?.map Value.int).getD .null) := by
  refine ⟨fun _ _ => Value.compare_int_ne_gt, fun _ _ => Value.compare_int_eq_iff,
    fun _ _ => Value.compare_int_of_le, fun ns hns => ⟨?_, ?_, ?_⟩⟩
  · obtain ⟨ms, hperm, hsorted, hsort⟩ := sortBy_integers hns
    refine ⟨ms, hperm, hsorted, ?_⟩
    have hresult : sort params (ns.map .int) = .ok (ms.map .int) := by
      rw [sort, hupwards, hwhole]
      exact congrArg Except.ok hsort
    change (sort params (ns.map .int) >>= fun items => pure (Value.arr items)) = _
    rw [hresult]
    rfl
  · change Except.ok (pick lesser (operands params (ns.map .int))) = _
    rw [operands_of_whole hwhole]
    cases ns with
    | nil => rfl
    | cons first rest =>
      rw [pick_integers lesser_int (fun m n => by omega) hns]
      rfl
  · change Except.ok (pick greater (operands params (ns.map .int))) = _
    rw [operands_of_whole hwhole]
    cases ns with
    | nil => rfl
    | cons first rest =>
      rw [pick_integers greater_int (fun m n => by omega) hns]
      rfl

/-- `2 ^ 53 + 2`, `-1` and `2 ^ 53` are told apart. -/
theorem integers_ordered_apart :
    let params : Params := [("order", .str "ASC")]
    let ns : List Int := [9007199254740994, -1, 9007199254740992]
    descending params = .ok false ∧ textParam params "field" = none ∧ Double.Separates ns ∧
      Value.compare (.int 9007199254740992) (.int 9007199254740994) = .lt ∧
      Value.compare (.int (-1)) (.int 9007199254740992) = .lt ∧
      (∃ ms : List Int, ms.Perm ns ∧ ms.Pairwise (· ≤ ·) ∧
        Transform.sort.apply params (.arr (ns.map .int)) = .ok (.arr (ms.map .int))) ∧
      Transform.min.apply params (.arr (ns.map .int)) = .ok (.int (-1)) ∧
      Transform.max.apply params (.arr (ns.map .int)) = .ok (.int 9007199254740994) := by
  intro params ns
  have hupwards : descending params = .ok false := by decide +kernel
  have hwhole : textParam params "field" = none := by decide +kernel
  have hns : Double.Separates ns := by decide +kernel
  obtain ⟨-, hexact, hsmall, hlists⟩ := integers_ordered params hupwards hwhole
  obtain ⟨hsort, hmin, hmax⟩ := hlists ns hns
  refine ⟨hupwards, hwhole, hns, ?_, ?_, hsort, hmin, hmax⟩
  · exact (hexact _ _).mpr fun heq => hns _ (by decide) _ (by decide) heq
  · exact hsmall _ _ (by decide) (by decide)

/-- `2 ^ 53 + 1` and `2 ^ 53` have one double. They compare as equal, a sort leaves the larger first, and it is taken
for the least of the two. -/
theorem not_forall_integers_ordered :
    let ns : List Int := [9007199254740993, 9007199254740992]
    (¬ ∀ m n : Int, Text.fitsInt64 m → Text.fitsInt64 n → Value.compare (.int m) (.int n) = compare m n) ∧
      Transform.sort.apply [] (.arr (ns.map .int)) = .ok (.arr (ns.map .int)) ∧
      Transform.min.apply [] (.arr (ns.map .int)) = .ok (.int 9007199254740993) := by
  intro ns
  have hequal : Value.compare (.int 9007199254740993) (.int 9007199254740992) = .eq := by decide +kernel
  have hreverse : Value.compare (.int 9007199254740992) (.int 9007199254740993) = .eq := by decide +kernel
  refine ⟨fun hall => ?_, ?_, ?_⟩
  · have h := hall 9007199254740993 9007199254740992 (by decide) (by decide)
    rw [hequal] at h
    cases h
  · have hsorted : (ns.map Value.int).Pairwise fun a b => (Value.compare a b).isLE := by
      simp [ns, hequal]
    exact congrArg (fun items => Except.ok (Value.arr items)) (List.mergeSort_of_pairwise hsorted)
  · have hlesser : lesser (.int 9007199254740993) (.int 9007199254740992) = .int 9007199254740993 := by
      rw [lesser, hreverse]
      rfl
    change Except.ok (pick lesser (operands [] (ns.map .int))) = _
    rw [operands_of_whole rfl]
    simp only [ns, pick, List.map, List.filter, Value.isNull, Value.int, Bool.not_false, List.foldl]
    exact congrArg Except.ok hlesser

end Transforms

end Pipewright
