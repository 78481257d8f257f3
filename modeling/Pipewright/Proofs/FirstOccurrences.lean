import Pipewright.Proofs.ValueEquality
import Pipewright.Transforms.Catalog

/-!
# First occurrences

Of the items with equal keys the first one is kept. The keys are compared with those of the items kept so far, and not
with those of all items before; since equality is transitive, it comes to the same. So no two keys that are left are
equal, every key is represented, and what was kept of a list stands for the list, whatever follows.
-/
namespace Pipewright

namespace Transforms

variable {key : Value → Value} {seen before items : List Value} {item : Value}

/-- Whether a key equals one of those seen. -/
def isSeen (seen : List Value) (v : Value) : Bool := seen.any (·.same v)

/-- The items whose key differs from that of every item before them. -/
def firstsBy (key : Value → Value) (items : List Value) : List Value :=
  (items.zipIdx.filter fun (item, i) => !isSeen ((items.take i).map key) (key item)).map Prod.fst

/-! ### Keys that were seen -/

theorem isSeen_append_singleton (seen : List Value) (k v : Value) :
    isSeen (seen ++ [k]) v = (isSeen seen v || k.same v) := by
  rw [isSeen, isSeen, List.any_append, List.any_cons, List.any_nil, Bool.or_false]

/-- A key that is equal to one seen makes no difference once it is seen as well. -/
theorem isSeen_append_of_isSeen {k : Value} (h : isSeen seen k) (v : Value) :
    isSeen (seen ++ [k]) v = isSeen seen v := by
  rw [isSeen_append_singleton, Bool.or_eq_left_iff_imp]
  intro hsame
  obtain ⟨other, hother, hk⟩ := List.any_eq_true.mp h
  exact List.any_eq_true.mpr ⟨other, hother, Value.same_trans hk hsame⟩

theorem uniqueBy_of_isSeen (h : isSeen seen (key item)) (rest : List Value) :
    uniqueBy key seen (item :: rest) = uniqueBy key seen rest := if_pos h

theorem uniqueBy_of_not_isSeen (h : ¬ isSeen seen (key item)) (rest : List Value) :
    uniqueBy key seen (item :: rest) = item :: uniqueBy key (seen ++ [key item]) rest := if_neg h

/-! ### What is kept -/

/-- By induction on the items still to come: the keys seen are those of the items before, up to equality. -/
theorem uniqueBy_eq_firsts (h : ∀ v, isSeen seen v = isSeen (before.map key) v) (items : List Value) :
    uniqueBy key seen items =
      ((items.zipIdx before.length).filter fun (item, i) =>
        !isSeen (((before ++ items).take i).map key) (key item)).map Prod.fst := by
  induction items generalizing seen before with
  | nil => rfl
  | cons item rest ih =>
    have hnext (v : Value) : isSeen ((before ++ [item]).map key) v = (isSeen seen v || (key item).same v) := by
      rw [List.map_append, List.map_singleton, isSeen_append_singleton, ← h]
    have hlength : (before ++ [item]).length = before.length + 1 := List.length_append
    rw [List.zipIdx_cons, ← hlength, List.append_cons]
    by_cases hitem : isSeen seen (key item)
    · rw [uniqueBy_of_isSeen hitem, List.filter_cons_of_neg (by simpa [h] using hitem)]
      refine ih fun v => ?_
      rw [hnext, ← isSeen_append_singleton, isSeen_append_of_isSeen hitem]
    · rw [uniqueBy_of_not_isSeen hitem, List.filter_cons_of_pos (by simpa [h] using hitem), List.map_cons]
      refine congrArg (item :: ·) (ih fun v => ?_)
      rw [hnext, isSeen_append_singleton]

theorem uniqueBy_nil_eq_firstsBy (key : Value → Value) (items : List Value) :
    uniqueBy key [] items = firstsBy key items := by
  have hnone (v : Value) : isSeen [] v = isSeen (([] : List Value).map key) v := rfl
  exact uniqueBy_eq_firsts hnone items

theorem firstsBy_sublist (key : Value → Value) (items : List Value) : (firstsBy key items).Sublist items := by
  have hsublist : (firstsBy key items).Sublist (items.zipIdx.map Prod.fst) := List.filter_sublist.map Prod.fst
  rwa [List.zipIdx_map_fst] at hsublist

/-- No key that is kept was seen before, and no two of them are equal. -/
theorem pairwise_uniqueBy (key : Value → Value) (seen items : List Value) :
    (∀ kept ∈ uniqueBy key seen items, ¬ isSeen seen (key kept)) ∧
      (uniqueBy key seen items).Pairwise fun a b => ¬ (key a).same (key b) := by
  induction items generalizing seen with
  | nil => exact ⟨nofun, List.Pairwise.nil⟩
  | cons item rest ih =>
    by_cases hitem : isSeen seen (key item)
    · rw [uniqueBy_of_isSeen hitem]
      exact ih seen
    · obtain ⟨hfresh, hpairwise⟩ := ih (seen ++ [key item])
      have hrest : ∀ kept ∈ uniqueBy key (seen ++ [key item]) rest,
          ¬ isSeen seen (key kept) ∧ ¬ (key item).same (key kept) := by
        intro kept hkept
        have hnot := hfresh kept hkept
        rwa [isSeen_append_singleton, Bool.or_eq_true, not_or] at hnot
      rw [uniqueBy_of_not_isSeen hitem]
      exact ⟨List.forall_mem_cons.mpr ⟨hitem, fun kept hkept => (hrest kept hkept).1⟩,
        List.pairwise_cons.mpr ⟨fun kept hkept => (hrest kept hkept).2, hpairwise⟩⟩

/-- Every key was seen before or is that of an item that is kept. -/
theorem represented_uniqueBy (key : Value → Value) (seen items : List Value) :
    ∀ item ∈ items, isSeen seen (key item) ∨ ∃ kept ∈ uniqueBy key seen items, (key kept).same (key item) := by
  induction items generalizing seen with
  | nil => exact nofun
  | cons first rest ih =>
    by_cases hfirst : isSeen seen (key first)
    · rw [uniqueBy_of_isSeen hfirst]
      exact List.forall_mem_cons.mpr ⟨.inl hfirst, ih seen⟩
    · rw [uniqueBy_of_not_isSeen hfirst]
      refine List.forall_mem_cons.mpr ⟨.inr ⟨first, List.mem_cons_self, Value.same_self _⟩, fun item hitem => ?_⟩
      rcases ih (seen ++ [key first]) item hitem with hseen | ⟨kept, hkept, hsame⟩
      · rw [isSeen_append_singleton, Bool.or_eq_true] at hseen
        exact hseen.imp_right fun hsame => ⟨first, List.mem_cons_self, hsame⟩
      · exact .inr ⟨kept, List.mem_cons_of_mem _ hkept, hsame⟩

/-- What follows is compared with what was seen and with what was kept. -/
theorem uniqueBy_append (key : Value → Value) (seen items more : List Value) :
    uniqueBy key seen (items ++ more) =
      uniqueBy key seen items ++ uniqueBy key (seen ++ (uniqueBy key seen items).map key) more := by
  induction items generalizing seen with
  | nil => rw [List.nil_append, uniqueBy, List.nil_append, List.map_nil, List.append_nil]
  | cons item rest ih =>
    rw [List.cons_append]
    by_cases hitem : isSeen seen (key item)
    · rw [uniqueBy_of_isSeen hitem, uniqueBy_of_isSeen hitem, ih]
    · rw [uniqueBy_of_not_isSeen hitem, uniqueBy_of_not_isSeen hitem, ih, List.cons_append, List.map_cons,
        List.append_assoc, List.singleton_append]

/-- Where all keys differ, also from those seen, nothing is left out. -/
theorem uniqueBy_of_pairwise (hfresh : ∀ item ∈ items, ¬ isSeen seen (key item))
    (hpairwise : items.Pairwise fun a b => ¬ (key a).same (key b)) : uniqueBy key seen items = items := by
  induction items generalizing seen with
  | nil => rfl
  | cons item rest ih =>
    obtain ⟨hitem, hrest⟩ := List.forall_mem_cons.mp hfresh
    obtain ⟨hdiffer, hpairwise⟩ := List.pairwise_cons.mp hpairwise
    rw [uniqueBy_of_not_isSeen hitem]
    refine congrArg (item :: ·) (ih (fun other hother => ?_) hpairwise)
    rw [isSeen_append_singleton, Bool.or_eq_true, not_or]
    exact ⟨hrest other hother, hdiffer other hother⟩

theorem uniqueBy_uniqueBy (key : Value → Value) (items : List Value) :
    uniqueBy key [] (uniqueBy key [] items) = uniqueBy key [] items := by
  obtain ⟨hfresh, hpairwise⟩ := pairwise_uniqueBy key [] items
  exact uniqueBy_of_pairwise hfresh hpairwise

/-- The items kept stand for all items. -/
theorem uniqueBy_uniqueBy_append (key : Value → Value) (items more : List Value) :
    uniqueBy key [] (uniqueBy key [] items ++ more) = uniqueBy key [] (items ++ more) := by
  rw [uniqueBy_append, uniqueBy_append, uniqueBy_uniqueBy]

/-- An array without repetitions holds the first item of each key, in order: those whose key differs from the keys of
all items before them. No two of their keys are equal, and every key equals one of them. To leave out repetitions again
changes nothing, and it does not matter whether they are left out of a front before the rest is appended. -/
theorem unique_firsts (params : Params) (items : List Value) :
    let key := keyOf (textParam params "field")
    ∃ kept, Transform.unique.apply params (.arr items) = .ok (.arr kept) ∧
      kept = firstsBy key items ∧ kept.Sublist items ∧
      kept.Pairwise (fun a b => ¬ (key a).same (key b) ∧ ¬ (key b).same (key a)) ∧
      (∀ item ∈ items, ∃ first ∈ kept, (key first).same (key item)) ∧
      Transform.unique.apply params (.arr kept) = .ok (.arr kept) ∧
      ∀ more, Transform.unique.apply params (.arr (items ++ more)) =
        Transform.unique.apply params (.arr (kept ++ more)) := by
  intro key
  have hfirsts := uniqueBy_nil_eq_firstsBy key items
  have happly (items : List Value) :
      Transform.unique.apply params (.arr items) = .ok (.arr (uniqueBy key [] items)) := rfl
  refine ⟨uniqueBy key [] items, rfl, hfirsts, ?_, ?_, fun item hitem => ?_, ?_, fun more => ?_⟩
  · rw [hfirsts]
    exact firstsBy_sublist key items
  · exact (pairwise_uniqueBy key [] items).2.imp fun hdiffer => ⟨hdiffer, fun hsame => hdiffer (Value.same_symm hsame)⟩
  · exact (represented_uniqueBy key [] items item hitem).resolve_left nofun
  · rw [happly, uniqueBy_uniqueBy]
  · rw [happly, happly, uniqueBy_uniqueBy_append]

/-- By a field that two items have as `0.0` and `-0.0`, which are equal, one as the integer `0`, which differs from
both, one as null and one not at all, which is null as well. -/
theorem unique_firsts_zeros :
    let params : Params := [("field", .str "a.n")]
    let item (v : Value) : Value := .obj [("a", .obj [("n", v)])]
    let zero := item (.num (.float (.zero false)))
    let negativeZero := item (.num (.float (.zero true)))
    let items := [zero, item .null, negativeZero, item (.int 0), .str "a"]
    let kept := [zero, item .null, item (.int 0)]
    Transform.unique.apply params (.arr items) = .ok (.arr kept) ∧ kept = firstsBy (keyOf (some "a.n")) items ∧
      .str "a" ∈ items ∧ (∃ first ∈ kept, (keyOf (some "a.n") first).same (keyOf (some "a.n") (.str "a"))) ∧
      Transform.unique.apply params (.arr kept) = .ok (.arr kept) := by
  intro params item zero negativeZero items kept
  have hkept : Transform.unique.apply params (.arr items) = .ok (.arr kept) := rfl
  obtain ⟨found, hfound, hfirsts, -, -, hrepresented, hagain, -⟩ := unique_firsts params items
  cases hfound.symm.trans hkept
  have hlast : .str "a" ∈ items := by simp [items]
  exact ⟨hkept, hfirsts, hlast, hrepresented _ hlast, hagain⟩

end Transforms

end Pipewright
