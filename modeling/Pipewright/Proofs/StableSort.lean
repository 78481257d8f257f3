import Mathlib.Data.List.Permutation
import Pipewright.Proofs.ValueOrder
import Pipewright.Transforms.Catalog

/-!
# Sorting is stable

A sort rearranges items so that their keys ascend, or descend if it is told so. Items of equal keys stay in the order
they came in, whichever way it goes: turning the order of two keys round does not turn ties round. No other list has
these properties, so that a sorted list is left as it is.
-/
namespace Pipewright

theorem Value.compare_self (v : Value) : Value.compare v v = .eq := Std.ReflCmp.compare_self

namespace Transforms

variable {key : Value → Value} {down : Bool}

/-! ### Sorted lists -/

/-- Whether the key of an item compares as equal to `k`. -/
def ties (key : Value → Value) (k item : Value) : Bool := (Value.compare (key item) k).isEq

/-- Going up the key of `a` is not greater than that of `b`, and going down it is not less. -/
def InOrder (key : Value → Value) (down : Bool) (a b : Value) : Prop :=
  Value.compare (key a) (key b) ≠ if down then .lt else .gt

/-- `sorted` holds the items, each as often as before, with keys that do not descend, or do not ascend if the order goes
down. Of the items whose key compares as equal to a value, none is moved past another. -/
structure IsStableSort (key : Value → Value) (down : Bool) (items sorted : List Value) : Prop where
  perm : sorted.Perm items
  ordered : sorted.Pairwise (InOrder key down)
  stable : ∀ k, sorted.filter (ties key k) = items.filter (ties key k)

theorem ties_self (key : Value → Value) (item : Value) : ties key (key item) item := by
  rw [ties, Value.compare_self]
  rfl

theorem inOrder_self (key : Value → Value) (down : Bool) (item : Value) : InOrder key down item item := by
  rw [InOrder, Value.compare_self]
  cases down <;> exact nofun

/-- Keys that are in order both ways compare as equal. -/
theorem compare_eq_of_inOrder {a b : Value} (hab : InOrder key down a b) (hba : InOrder key down b a) :
    Value.compare (key a) (key b) = .eq := by
  unfold InOrder at hab hba
  rw [Value.compare_swap (key a) (key b)] at hba
  cases h : Value.compare (key a) (key b) with
  | eq => rfl
  | lt | gt =>
    rw [h] at hab hba
    cases down <;> contradiction

section

variable {xs ys : List Value} (hties : ∀ k, xs.filter (ties key k) = ys.filter (ties key k))

include hties

/-- Every item is among those that tie with it. -/
theorem mem_of_ties {item : Value} (h : item ∈ xs) : item ∈ ys := by
  have hmem : item ∈ xs.filter (ties key (key item)) := List.mem_filter.mpr ⟨h, ties_self key item⟩
  rw [hties] at hmem
  exact (List.mem_filter.mp hmem).1

/-- Two lists in order are the same if they have the same ties. -/
theorem eq_of_ties (hxs : xs.Pairwise (InOrder key down)) (hys : ys.Pairwise (InOrder key down)) : xs = ys := by
  induction xs generalizing ys with
  | nil =>
    cases ys with
    | nil => rfl
    | cons y ys => exact absurd (mem_of_ties (fun k => (hties k).symm) List.mem_cons_self) List.not_mem_nil
  | cons x xs ih =>
    cases ys with
    | nil => exact absurd (mem_of_ties hties List.mem_cons_self) List.not_mem_nil
    | cons y ys =>
      obtain ⟨hx, hxtail⟩ := List.pairwise_cons.mp hxs
      obtain ⟨hy, hytail⟩ := List.pairwise_cons.mp hys
      -- Each head is in the other list as well, and so neither has to stand behind the other.
      have hxy : InOrder key down x y := by
        rcases List.mem_cons.mp (mem_of_ties (fun k => (hties k).symm) List.mem_cons_self) with rfl | hmem
        · exact inOrder_self key down y
        · exact hx y hmem
      have hyx : InOrder key down y x := by
        rcases List.mem_cons.mp (mem_of_ties hties List.mem_cons_self) with rfl | hmem
        · exact inOrder_self key down x
        · exact hy x hmem
      have htie : ties key (key x) y := Ordering.isEq_iff_eq_eq.mpr (compare_eq_of_inOrder hyx hxy)
      have hheads := hties (key x)
      rw [List.filter_cons_of_pos (ties_self key x), List.filter_cons_of_pos htie] at hheads
      obtain ⟨rfl, -⟩ := List.cons.inj hheads
      have hrest : ∀ k, xs.filter (ties key k) = ys.filter (ties key k) := by
        intro k
        have hk := hties k
        by_cases hx : ties key k x
        · rw [List.filter_cons_of_pos hx, List.filter_cons_of_pos hx] at hk
          exact (List.cons.inj hk).2
        · rwa [List.filter_cons_of_neg hx, List.filter_cons_of_neg hx] at hk
      exact congrArg (x :: ·) (ih hrest hxtail hytail)

end

theorem IsStableSort.unique {items xs ys : List Value} (hxs : IsStableSort key down items xs)
    (hys : IsStableSort key down items ys) : xs = ys :=
  eq_of_ties (fun k => (hxs.stable k).trans (hys.stable k).symm) hxs.ordered hys.ordered

/-! ### The sort -/

/-- Whether a sort may leave `a` in front of `b`. -/
def precedes (key : Value → Value) (down : Bool) (a b : Value) : Bool :=
  if down then (Value.compare (key b) (key a)).isLE else (Value.compare (key a) (key b)).isLE

theorem sortBy_eq (key : Value → Value) (down : Bool) (items : List Value) :
    sortBy key down items = items.mergeSort (precedes key down) := by
  cases down <;> rfl

theorem precedes_iff {a b : Value} : precedes key down a b ↔ InOrder key down a b := by
  unfold precedes InOrder
  rw [Value.compare_swap (key a) (key b)]
  cases down <;> cases Value.compare (key a) (key b) <;> decide

theorem precedes_trans (a b c : Value) (hab : precedes key down a b) (hbc : precedes key down b c) :
    precedes key down a c := by
  unfold precedes at hab hbc ⊢
  cases down with
  | false => exact Std.TransCmp.isLE_trans hab hbc
  | true => exact Std.TransCmp.isLE_trans hbc hab

theorem precedes_total (a b : Value) : precedes key down a b || precedes key down b a := by
  unfold precedes
  rw [Value.compare_swap (key a) (key b)]
  cases down <;> cases Value.compare (key a) (key b) <;> rfl

theorem precedes_of_ties {k a b : Value} (ha : ties key k a) (hb : ties key k b) : precedes key down a b := by
  have heq : Value.compare (key a) (key b) = .eq := by
    rw [Std.TransCmp.congr_left (Ordering.isEq_iff_eq_eq.mp ha), Value.compare_swap (key b) k,
      Ordering.isEq_iff_eq_eq.mp hb]
    rfl
  rw [precedes_iff, InOrder, heq]
  cases down <;> exact nofun

/-- What is in order beforehand is not moved, and so the ties are not. -/
theorem filter_ties_sortBy (key : Value → Value) (down : Bool) (items : List Value) (k : Value) :
    (sortBy key down items).filter (ties key k) = items.filter (ties key k) := by
  rw [sortBy_eq]
  have hordered : (items.filter (ties key k)).Pairwise fun a b => precedes key down a b := by
    rw [List.pairwise_filter]
    exact List.pairwise_of_forall fun _ _ => precedes_of_ties
  have hkept : (items.filter (ties key k)).Sublist (items.mergeSort (precedes key down)) :=
    List.sublist_mergeSort precedes_trans precedes_total hordered List.filter_sublist
  have hfiltered := hkept.filter (ties key k)
  simp only [List.filter_filter, Bool.and_self] at hfiltered
  have hlength := ((List.mergeSort_perm items (precedes key down)).filter (ties key k)).length_eq
  exact (hfiltered.eq_of_length hlength.symm).symm

theorem pairwise_sortBy (key : Value → Value) (down : Bool) (items : List Value) :
    (sortBy key down items).Pairwise fun a b => precedes key down a b := by
  rw [sortBy_eq]
  exact List.pairwise_mergeSort precedes_trans precedes_total items

theorem isStableSort_sortBy (key : Value → Value) (down : Bool) (items : List Value) :
    IsStableSort key down items (sortBy key down items) where
  perm := by
    rw [sortBy_eq]
    exact List.mergeSort_perm items (precedes key down)
  ordered := (pairwise_sortBy key down items).imp precedes_iff.mp
  stable := filter_ties_sortBy key down items

theorem sortBy_sortBy (key : Value → Value) (down : Bool) (items : List Value) :
    sortBy key down (sortBy key down items) = sortBy key down items := by
  rw [sortBy_eq key down (sortBy key down items)]
  exact List.mergeSort_of_pairwise (pairwise_sortBy key down items)

/-! ### The order that is asked for -/

/-- The text that names the order, under `order` or else under `direction`. -/
def orderText (params : Params) : Option String := (textParam params "order").or (textParam params "direction")

/-- Which way parameters direct a sort: up, unless an order is named, and then as the name says in small or capital
letters. Any other name directs it nowhere. -/
inductive Directs (params : Params) : Bool → Prop
  | unnamed (h : orderText params = none) : Directs params false
  | ascending {text : String} (h : orderText params = some text) (hname : text.toLower = "asc") : Directs params false
  | descending {text : String} (h : orderText params = some text) (hname : text.toLower = "desc") : Directs params true

theorem descending_eq_ok_iff {params : Params} : descending params = .ok down ↔ Directs params down := by
  unfold descending
  constructor
  · intro h
    split at h
    next hnone =>
      cases h
      exact .unnamed hnone
    next text htext =>
      dsimp only at h
      split at h
      next hasc =>
        cases h
        exact .ascending htext hasc
      next =>
        split at h
        next hdesc =>
          cases h
          exact .descending htext hdesc
        next => cases h
  · rintro (h | ⟨h, hname⟩ | ⟨h, hname⟩)
    all_goals
      unfold orderText at h
      rw [h]
    · exact if_pos hname
    · dsimp only
      rw [hname]
      rfl

theorem apply_sort {params : Params} (h : Directs params down) (items : List Value) :
    Transform.sort.apply params (.arr items) = .ok (.arr (sortBy (keyOf (textParam params "field")) down items)) := by
  have hsort : sort params items = .ok (sortBy (keyOf (textParam params "field")) down items) := by
    rw [sort, descending_eq_ok_iff.mpr h]
    rfl
  change (sort params items >>= fun sorted => pure (Value.arr sorted)) = _
  rw [hsort]
  rfl

/-- Told to go up or down, a sort gives the one list that has the items of its input in that order of their keys, and
ties as they stood. Sorting that list in the same way leaves it as it is. -/
theorem sort_stable (params : Params) (hdown : Directs params down) (items : List Value) :
    ∃ sorted, Transform.sort.apply params (.arr items) = .ok (.arr sorted) ∧
      IsStableSort (keyOf (textParam params "field")) down items sorted ∧
      (∀ other, IsStableSort (keyOf (textParam params "field")) down items other → other = sorted) ∧
      Transform.sort.apply params (.arr sorted) = .ok (.arr sorted) := by
  have hstable := isStableSort_sortBy (keyOf (textParam params "field")) down items
  refine ⟨_, apply_sort hdown items, hstable, fun other hother => hother.unique hstable, ?_⟩
  rw [apply_sort hdown, sortBy_sortBy]

/-- Downwards by a field that two items have as `0.0` and `-0.0`, which compare as equal, one as a text, and one not at
all. An `order` that is no text names none, and so `direction` counts. -/
theorem sort_stable_downwards :
    let params : Params := [("direction", .str "DESC"), ("field", .str "n"), ("order", .int 1)]
    let item (v : Value) : Value := .obj [("n", v)]
    let zero : Value := .num (.float (.zero false))
    let negativeZero : Value := .num (.float (.zero true))
    let items := [item zero, .null, item negativeZero, item (.str "x")]
    let sorted := [item (.str "x"), item zero, item negativeZero, .null]
    Directs params true ∧ Transform.sort.apply params (.arr items) = .ok (.arr sorted) ∧
      IsStableSort (keyOf (some "n")) true items sorted ∧
      Transform.sort.apply params (.arr sorted) = .ok (.arr sorted) := by
  intro params item zero negativeZero items sorted
  have hdown : Directs params true := .descending rfl (by decide +kernel)
  obtain ⟨found, hsort, hstable, -, hagain⟩ := sort_stable params hdown items
  have hfound : sortBy (keyOf (some "n")) true items = sorted := by
    let atMost (a b : Value) : Bool := (Value.compare (keyOf (some "n") a) (keyOf (some "n") b)).isLE
    have hfirst : atMost .null (item zero) = true := rfl
    have hsecond : atMost (item (.str "x")) (item negativeZero) = false := by decide +kernel
    have hleast : atMost (item (.str "x")) (item zero) = false := by decide +kernel
    have hties : atMost (item negativeZero) (item zero) = true := by decide +kernel
    have hlast : atMost (item negativeZero) .null = false := by decide +kernel
    change items.mergeSort (fun a b => atMost b a) = sorted
    simp [items, sorted, List.mergeSort, hfirst, hsecond, hleast, hties, hlast]
  have hsorted : Transform.sort.apply params (.arr items) = .ok (.arr sorted) :=
    (apply_sort hdown items).trans (congrArg (fun sorted => Except.ok (Value.arr sorted)) hfound)
  rw [hsorted] at hsort
  cases hsort
  exact ⟨hdown, hsorted, hstable, hagain⟩

end Transforms

end Pipewright
