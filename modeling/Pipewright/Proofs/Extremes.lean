import Pipewright.Proofs.ItemConditions
import Pipewright.Proofs.StableSort

/-!
# The least and the greatest value are the ends of a sort

Values that compare as equal need not be equal, and so it matters which of them is taken for the least or the greatest.
The least is the first of those that no value is less than, the greatest the last of those that no value is greater
than. These are the two ends of the values sorted upwards, since a sort keeps the order of ties.
-/
namespace Pipewright

namespace Transforms

/-- The last value, or the first. -/
def outermost (atEnd : Bool) (values : List Value) : Option Value := if atEnd then values.getLast? else values.head?

/-- `v` is the last of the greatest values, or the first of the least ones: no value lies beyond it, and it stands
outermost among the values that it ties with. -/
structure IsExtreme (greatest : Bool) (values : List Value) (v : Value) : Prop where
  bounds : ∀ w ∈ values, InOrder id greatest v w
  outer : outermost greatest (values.filter (ties id v)) = some v

variable {greatest : Bool} {values : List Value} {v w : Value}

theorem mem_of_outermost (h : outermost greatest values = some v) : v ∈ values := by
  cases greatest with
  | false => exact List.mem_of_mem_head? h
  | true => exact List.mem_of_getLast? h

theorem IsExtreme.mem (h : IsExtreme greatest values v) : v ∈ values :=
  (List.mem_filter.mp (mem_of_outermost h.outer)).1

/-- Two extremes compare as equal, and so they stand outermost among the same values. -/
theorem IsExtreme.unique (hv : IsExtreme greatest values v) (hw : IsExtreme greatest values w) : v = w := by
  have hequal : Value.compare v w = .eq := compare_eq_of_inOrder (hv.bounds w hw.mem) (hw.bounds v hv.mem)
  have hties : ties id v = ties id w := by
    funext u
    exact congrArg Ordering.isEq (Std.TransCmp.congr_right hequal)
  have houter := hv.outer
  rw [hties, hw.outer] at houter
  exact (Option.some.inj houter).symm

/-! ### Going through the values -/

theorem inOrder_trans {a b c : Value} (hab : InOrder id greatest a b) (hbc : InOrder id greatest b c) :
    InOrder id greatest a c :=
  precedes_iff.mp (precedes_trans a b c (precedes_iff.mpr hab) (precedes_iff.mpr hbc))

theorem isExtreme_singleton (greatest : Bool) (v : Value) : IsExtreme greatest [v] v where
  bounds w hw := by
    obtain rfl := List.mem_singleton.mp hw
    exact inOrder_self id greatest w
  outer := by
    have hself : ties id v v := ties_self id v
    rw [List.filter_cons_of_pos hself]
    cases greatest <;> rfl

/-- The extreme so far is kept where the next value is not beyond it; the greatest has to be beyond the next value. -/
theorem IsExtreme.keep (h : IsExtreme greatest values v) (hnext : InOrder id greatest v w)
    (hbehind : greatest → ¬ ties id v w) : IsExtreme greatest (values ++ [w]) v where
  bounds u hu := by
    rcases List.mem_append.mp hu with hu | hu
    · exact h.bounds u hu
    · obtain rfl := List.mem_singleton.mp hu
      exact hnext
  outer := by
    have houter := h.outer
    rw [List.filter_append]
    cases greatest with
    | false =>
      change (_ : List Value).head? = _ at houter ⊢
      rw [List.head?_append, houter, Option.some_or]
    | true =>
      rw [List.filter_cons_of_neg (hbehind rfl), List.filter_nil, List.append_nil]
      exact houter

/-- The next value is taken where the extreme so far is not beyond it; the least has to be beyond that one. -/
theorem IsExtreme.take (h : IsExtreme greatest values v) (hnext : InOrder id greatest w v)
    (hbefore : ¬ greatest → Value.compare w v ≠ .eq) : IsExtreme greatest (values ++ [w]) w where
  bounds u hu := by
    rcases List.mem_append.mp hu with hu | hu
    · exact inOrder_trans hnext (h.bounds u hu)
    · obtain rfl := List.mem_singleton.mp hu
      exact inOrder_self id greatest u
  outer := by
    have hself : ties id w w := ties_self id w
    rw [List.filter_append, List.filter_cons_of_pos hself, List.filter_nil]
    cases greatest with
    | true => exact List.getLast?_concat
    | false =>
      -- A value that ties with `w` would put the extreme so far in order with `w` both ways.
      have hnone : values.filter (ties id w) = [] := by
        refine List.filter_eq_nil_iff.mpr fun u hu htie => hbefore Bool.false_ne_true ?_
        have hequal : Value.compare u w = .eq := Ordering.isEq_iff_eq_eq.mp htie
        have huw : InOrder id false u w := by
          rw [InOrder, id, id, hequal]
          decide
        exact compare_eq_of_inOrder hnext (inOrder_trans (h.bounds u hu) huw)
      rw [hnone]
      rfl

theorem IsExtreme.lesser (h : IsExtreme false values v) (next : Value) :
    IsExtreme false (values ++ [next]) (lesser v next) := by
  unfold Transforms.lesser
  split
  next hless =>
    have hlt : Value.compare next v = .lt := Ordering.isLT_iff_eq_lt.mp hless
    refine h.take ?_ fun _ => ?_
    · rw [InOrder, id, id, hlt]
      decide
    · rw [hlt]
      decide
  next hless =>
    refine h.keep ?_ fun hgreatest => absurd hgreatest Bool.false_ne_true
    rw [InOrder, id, id, Value.compare_swap next v]
    cases hcompare : Value.compare next v with
    | lt => exact absurd (Ordering.isLT_iff_eq_lt.mpr hcompare) hless
    | eq | gt => decide

theorem IsExtreme.greater (h : IsExtreme true values v) (next : Value) :
    IsExtreme true (values ++ [next]) (greater v next) := by
  unfold Transforms.greater
  split
  next hless =>
    have hlt : Value.compare next v = .lt := Ordering.isLT_iff_eq_lt.mp hless
    refine h.keep ?_ fun _ htie => ?_
    · rw [InOrder, id, id, Value.compare_swap next v, hlt]
      decide
    · rw [ties, id, hlt] at htie
      cases htie
  next hless =>
    refine h.take ?_ fun hgreatest => absurd rfl hgreatest
    intro hlt
    exact hless (Ordering.isLT_iff_eq_lt.mpr hlt)

/-- If each choice is the extreme of the values so far, the last one is the extreme of all. -/
theorem isExtreme_foldl {choose : Value → Value → Value}
    (hchoose : ∀ {values v}, IsExtreme greatest values v →
      ∀ next, IsExtreme greatest (values ++ [next]) (choose v next))
    (h : IsExtreme greatest values v) (rest : List Value) :
    IsExtreme greatest (values ++ rest) (rest.foldl choose v) := by
  induction rest generalizing values v with
  | nil => rwa [List.append_nil]
  | cons next rest ih =>
    rw [List.append_cons]
    exact ih (hchoose h next)

/-! ### The ends of a sort -/

/-- The first of the values sorted upwards is the least, and the last of them the greatest. -/
theorem IsStableSort.isExtreme {sorted : List Value} (h : IsStableSort id false values sorted)
    (houter : outermost greatest sorted = some v) : IsExtreme greatest values v := by
  cases greatest with
  | false =>
    obtain ⟨rest, rfl⟩ := List.head?_eq_some_iff.mp houter
    obtain ⟨hleast, -⟩ := List.pairwise_cons.mp h.ordered
    constructor
    · intro w hw
      rcases List.mem_cons.mp (h.perm.mem_iff.mpr hw) with rfl | hw
      · exact inOrder_self id false w
      · exact hleast w hw
    · have hself : ties id v v := ties_self id v
      rw [← h.stable v, List.filter_cons_of_pos hself]
      rfl
  | true =>
    obtain ⟨front, rfl⟩ := List.getLast?_eq_some_iff.mp houter
    obtain ⟨-, -, hgreatest⟩ := List.pairwise_append.mp h.ordered
    constructor
    · intro w hw
      rcases List.mem_append.mp (h.perm.mem_iff.mpr hw) with hw | hw
      · have hle : InOrder id false w v := hgreatest w hw v (List.mem_singleton_self v)
        intro hlt
        apply hle
        rw [id, id, Value.compare_swap v w]
        exact congrArg Ordering.swap hlt
      · obtain rfl := List.mem_singleton.mp hw
        exact inOrder_self id true w
    · have hself : ties id v v := ties_self id v
      rw [← h.stable v, List.filter_append, List.filter_cons_of_pos hself]
      exact List.getLast?_concat

/-- What is picked by going through the values that are not null is an end of these values sorted, or null. -/
theorem pick_eq_outermost {choose : Value → Value → Value}
    (hchoose : ∀ {values v}, IsExtreme greatest values v →
      ∀ next, IsExtreme greatest (values ++ [next]) (choose v next))
    {sorted : List Value} (h : IsStableSort id false (values.filter (!·.isNull)) sorted) :
    pick choose values = (outermost greatest sorted).getD .null := by
  rw [pick]
  split
  next hnone =>
    rw [hnone] at h
    obtain rfl := h.perm.eq_nil
    cases greatest <;> rfl
  next first rest hsome =>
    rw [hsome] at h
    have hpicked : IsExtreme greatest (first :: rest) (rest.foldl choose first) :=
      isExtreme_foldl hchoose (isExtreme_singleton greatest first) rest
    cases hend : outermost greatest sorted with
    | some v => exact hpicked.unique (h.isExtreme hend)
    | none =>
      have hempty : sorted = [] := by
        cases greatest with
        | false => exact List.head?_eq_none_iff.mp hend
        | true => exact List.getLast?_eq_none_iff.mp hend
      have hlength := h.perm.length_eq
      rw [hempty] at hlength
      cases hlength

/-! ### The transforms -/

/-- What an aggregate goes through, by the transform that maps: the field of each item, if one is named. -/
def mapped (params : Params) (data : Value) : Except Fault Value :=
  match textParam params "field" with
  | some field => Transform.map.apply [("field", .str field)] data
  | none => .ok data

/-- What an aggregate goes through, by the transforms that filter and sort: without the nulls, and in ascending
order. -/
def ascending (params : Params) (data : Value) : Except Fault Value := do
  let values ← mapped params data
  let present ← Transform.filter.apply [("operator", .str "not_null")] values
  Transform.sort.apply [] present

theorem mapped_arr (params : Params) (items : List Value) :
    mapped params (.arr items) = .ok (.arr (operands params items)) := by
  rw [mapped, operands]
  cases textParam params "field" with
  | some field => rfl
  | none => exact congrArg (fun items => Except.ok (Value.arr items)) (List.map_id items).symm

theorem apply_not_null (items : List Value) :
    Transform.filter.apply [("operator", .str "not_null")] (.arr items) = .ok (.arr (items.filter (!·.isNull))) := by
  have hkept : filter [("operator", .str "not_null")] items = .ok (items.filter (!·.isNull)) :=
    keepWhere_of_ok fun _ _ => rfl
  rw [apply_filter, hkept]
  rfl

theorem ascending_arr (params : Params) (items : List Value) :
    ascending params (.arr items) = .ok (.arr (sortBy id false ((operands params items).filter (!·.isNull)))) := by
  rw [ascending, mapped_arr]
  change (Transform.filter.apply _ (.arr (operands params items)) >>= _) = _
  rw [apply_not_null]
  have hupwards : Directs [] false := .unnamed rfl
  exact apply_sort hupwards _

/-- The least of what an aggregate goes through is the first of it in ascending order without the nulls, and the
greatest is the last, exactly and not only up to values that compare as equal. Both are null if there are only nulls. -/
theorem min_max_eq_ends (params : Params) :
    (∀ data : Value,
      Transform.min.apply params data = (ascending params data >>= fun sorted => Transform.first.apply [] sorted) ∧
      Transform.max.apply params data = (ascending params data >>= fun sorted => Transform.last.apply [] sorted)) ∧
    ∀ items : List Value, ∃ sorted, ascending params (.arr items) = .ok (.arr sorted) ∧
      IsStableSort id false ((operands params items).filter (!·.isNull)) sorted ∧
      Transform.min.apply params (.arr items) = .ok (sorted.head?.getD .null) ∧
      Transform.max.apply params (.arr items) = .ok (sorted.getLast?.getD .null) := by
  have hmin {items sorted : List Value}
      (h : IsStableSort id false ((operands params items).filter (!·.isNull)) sorted) :
      Transform.min.apply params (.arr items) = .ok (sorted.head?.getD .null) :=
    congrArg Except.ok (pick_eq_outermost IsExtreme.lesser h)
  have hmax {items sorted : List Value}
      (h : IsStableSort id false ((operands params items).filter (!·.isNull)) sorted) :
      Transform.max.apply params (.arr items) = .ok (sorted.getLast?.getD .null) :=
    congrArg Except.ok (pick_eq_outermost IsExtreme.greater h)
  constructor
  · intro data
    cases data with
    | arr items =>
      have hsorted := isStableSort_sortBy id false ((operands params items).filter (!·.isNull))
      rw [ascending_arr, hmin hsorted, hmax hsorted]
      exact ⟨rfl, rfl⟩
    | null | bool | num | str | obj =>
      rw [ascending, mapped]
      cases textParam params "field" <;> exact ⟨rfl, rfl⟩
  · intro items
    have hsorted := isStableSort_sortBy id false ((operands params items).filter (!·.isNull))
    exact ⟨_, ascending_arr params items, hsorted, hmin hsorted, hmax hsorted⟩

/-- Of `0.0` and `-0.0`, which compare as equal, the least is the one that comes first, and the greatest the other. -/
example :
    let zero : Value := .num (.float (.zero false))
    let negativeZero : Value := .num (.float (.zero true))
    Transform.min.apply [] (.arr [.null, zero, negativeZero]) = .ok zero ∧
      Transform.max.apply [] (.arr [.null, zero, negativeZero]) = .ok negativeZero := by
  exact ⟨rfl, rfl⟩

end Transforms

end Pipewright
