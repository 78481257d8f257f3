import Mathlib.Algebra.GroupWithZero.Nat
import Mathlib.Data.List.Permutation
import Pipewright.Proofs.ValueInduction
import Pipewright.Transforms.Catalog

/-!
# Groups

Items are put one after the other into the group that their key names. After any number of them, each name leads to the
items of that key, in the order in which they came; there is no group without items, and all groups together hold what
was put into them. A group that is grouped again stays one.
-/
namespace Pipewright

namespace Fields

variable {α : Type} {fields : Fields α}

/-- Since a name occurs once, it leads to each of the values. -/
theorem get?_of_mem {name : String} {a : α} (hordered : Ordered fields) (h : (name, a) ∈ fields) :
    get? name fields = some a := by
  induction fields with
  | nil => exact absurd h List.not_mem_nil
  | cons head rest ih =>
    obtain ⟨key, b⟩ := head
    obtain ⟨hhead, hrest⟩ := List.pairwise_cons.mp hordered
    rcases List.mem_cons.mp h with heq | hmem
    · cases heq
      exact if_pos rfl
    · rw [get?, if_neg (String.ne_of_lt (hhead _ hmem)), ih hrest hmem]

/-- What is put behind the values of a name is put behind those of all names, but for the order. -/
theorem perm_insert_append {fields : Fields (List α)} (h : Ordered fields) (name : String) (a : α) :
    ((insert name ((get? name fields).getD [] ++ [a]) fields).flatMap Prod.snd).Perm
      (fields.flatMap Prod.snd ++ [a]) := by
  induction fields with
  | nil => exact List.Perm.refl _
  | cons head rest ih =>
    obtain ⟨key, as⟩ := head
    obtain ⟨hhead, hrest⟩ := List.pairwise_cons.mp h
    rw [insert]
    split
    next hlt =>
      have hnone : get? name ((key, as) :: rest) = none := by
        refine get?_eq_none_of_lt (List.forall_mem_cons.mpr ⟨hlt, fun entry hentry => ?_⟩)
        exact String.lt_trans hlt (hhead entry hentry)
      rw [hnone]
      exact (List.perm_append_singleton a _).symm
    next =>
      split
      next heq =>
        rw [get?, if_pos heq, List.flatMap_cons, List.flatMap_cons, Option.getD_some, List.append_assoc,
          List.append_assoc]
        exact List.perm_append_comm.append_left as
      next hne =>
        rw [get?, if_neg hne, List.flatMap_cons, List.flatMap_cons, List.append_assoc]
        exact (ih hrest).append_left as

end Fields

namespace Transforms

variable {key : Value → String} {items : List Value} {groups : Fields (List Value)}

/-- The groups of the items by their key: each key that occurs names one, which holds the items of that key as they
stand in the list. Under no other name anything is found, and nothing is lost or added. -/
structure IsGrouping (key : Value → String) (items : List Value) (groups : Fields (List Value)) : Prop where
  ordered : Fields.Ordered groups
  nonempty : ∀ group ∈ groups, group.2 ≠ []
  found : ∀ name, (Fields.get? name groups).getD [] = items.filter (key · = name)
  perm : (groups.flatMap Prod.snd).Perm items

theorem isGrouping_nil (key : Value → String) : IsGrouping key [] [] := ⟨Fields.ordered_nil, nofun, fun _ => rfl, .nil⟩

/-- One more item goes behind those of its key. -/
theorem IsGrouping.addToGroup (h : IsGrouping key items groups) (item : Value) :
    IsGrouping key (items ++ [item]) (addToGroup key groups item) where
  ordered := Fields.ordered_insert _ _ h.ordered
  nonempty group hgroup := by
    rcases Fields.mem_insert hgroup with rfl | hmem
    · exact List.append_ne_nil_of_right_ne_nil _ (List.cons_ne_nil item [])
    · exact h.nonempty group hmem
  found name := by
    rw [Transforms.addToGroup, Fields.get?_insert, List.filter_append]
    by_cases hname : key item = name
    · rw [if_pos hname, Option.getD_some, List.filter_cons_of_pos (by simpa using hname), hname, h.found]
      rfl
    · rw [if_neg hname, h.found, List.filter_cons_of_neg (by simpa using hname)]
      exact (List.append_nil _).symm
  perm := (Fields.perm_insert_append h.ordered (key item) item).trans (h.perm.append_right [item])

theorem isGrouping_groupsBy (key : Value → String) (items : List Value) :
    IsGrouping key items (groupsBy key items) := by
  induction items using List.reverseRecOn with
  | nil => exact isGrouping_nil key
  | append_singleton items item ih =>
    rw [groupsBy, List.foldl_concat]
    exact ih.addToGroup item

theorem IsGrouping.eq_filter (h : IsGrouping key items groups) {group : String × List Value} (hgroup : group ∈ groups) :
    group.2 = items.filter (key · = group.1) := by
  rw [← h.found, Fields.get?_of_mem h.ordered hgroup, Option.getD_some]

theorem IsGrouping.exists_group (h : IsGrouping key items groups) {item : Value} (hitem : item ∈ items) :
    ∃ group ∈ groups, group.1 = key item ∧ item ∈ group.2 := by
  have hmem : item ∈ items.filter (key · = key item) := List.mem_filter.mpr ⟨hitem, decide_eq_true rfl⟩
  rw [← h.found] at hmem
  cases hget : Fields.get? (key item) groups with
  | none =>
    rw [hget] at hmem
    exact absurd hmem List.not_mem_nil
  | some group =>
    rw [hget] at hmem
    exact ⟨(key item, group), Fields.mem_of_get? hget, rfl, hmem⟩

theorem IsGrouping.sum_length (h : IsGrouping key items groups) :
    (groups.map fun group => group.2.length).sum = items.length := by
  rw [← h.perm.length_eq, List.length_flatMap]

/-- Items of one key are one group. -/
theorem groupsBy_of_same {name : String} (hne : items ≠ []) (h : ∀ item ∈ items, key item = name) :
    groupsBy key items = [(name, items)] := by
  induction items using List.reverseRecOn with
  | nil => exact absurd rfl hne
  | append_singleton items item ih =>
    have hitem : key item = name := h item (List.mem_append_right _ (List.mem_singleton_self item))
    rw [groupsBy, List.foldl_concat, ← groupsBy]
    cases items with
    | nil =>
      rw [← hitem]
      rfl
    | cons first rest =>
      rw [ih (List.cons_ne_nil _ _) fun other hother => h other (List.mem_append_left _ hother), addToGroup, hitem]
      simp [Fields.insert, Fields.get?]

theorem apply_groupBy {params : Params} {field : String} (h : textParam params "field" = some field)
    (items : List Value) :
    Transform.groupBy.apply params (.arr items) =
      .ok (.obj ((groupsBy (fun item => (item.fieldOrNull field).display) items).map fun group =>
        (group.1, .arr group.2))) := by
  change groupBy params items = _
  rw [groupBy, requiredText, h]
  rfl

/-- Grouping by a field gives the groups of the items by the text of that field, or of null where an item lacks it: each
item is in the group of its own text and in no other. Their sizes add up to the number of items, and each group, grouped
by the field again, is the only one. -/
theorem groupBy_partition (params : Params) {field : String} (h : textParam params "field" = some field)
    (items : List Value) :
    let key (item : Value) : String := (item.fieldOrNull field).display
    ∃ groups : Fields (List Value),
      Transform.groupBy.apply params (.arr items) = .ok (.obj (groups.map fun group => (group.1, .arr group.2))) ∧
      IsGrouping key items groups ∧
      (∀ group ∈ groups, group.2 = items.filter (key · = group.1)) ∧
      (∀ item ∈ items, ∃ group ∈ groups, group.1 = key item ∧ item ∈ group.2) ∧
      (groups.map fun group => group.2.length).sum = items.length ∧
      ∀ group ∈ groups, Transform.groupBy.apply params (.arr group.2) = .ok (.obj [(group.1, .arr group.2)]) := by
  intro key
  have hgrouping := isGrouping_groupsBy key items
  refine ⟨_, apply_groupBy h items, hgrouping, fun group hgroup => hgrouping.eq_filter hgroup,
    fun item hitem => hgrouping.exists_group hitem, hgrouping.sum_length, fun group hgroup => ?_⟩
  have hsame : ∀ item ∈ group.2, key item = group.1 := by
    intro item hitem
    rw [hgrouping.eq_filter hgroup] at hitem
    exact of_decide_eq_true (List.mem_filter.mp hitem).2
  rw [apply_groupBy h, groupsBy_of_same (hgrouping.nonempty group hgroup) hsame]
  rfl

/-- Null, false, the empty text and a missing field are one group, true, `1` and the text `1` another, whose three items
stay in order. -/
theorem groupBy_partition_collapsing :
    let params : Params := [("field", .str "a.b")]
    let item (v : Value) : Value := .obj [("a", .obj [("b", v)])]
    let empty := [item .null, .int 5, item (.bool false), item (.str "")]
    let ones := [item (.bool true), item (.int 1), item (.str "1")]
    let items :=
      [item .null, item (.bool true), .int 5, item (.bool false), item (.int 1), item (.str ""), item (.str "1")]
    textParam params "field" = some "a.b" ∧
      Transform.groupBy.apply params (.arr items) = .ok (.obj [("", .arr empty), ("1", .arr ones)]) ∧
      Transform.groupBy.apply params (.arr ones) = .ok (.obj [("1", .arr ones)]) := by
  intro params item empty ones items
  have hfield : textParam params "field" = some "a.b" := rfl
  have hitems : Transform.groupBy.apply params (.arr items) = .ok (.obj [("", .arr empty), ("1", .arr ones)]) := by cbv
  obtain ⟨groups, happly, -, -, -, -, hagain⟩ := groupBy_partition params hfield items
  have hgroups : groups = [("", empty), ("1", ones)] := by
    refine List.map_injective_iff.mpr ?_ (Value.obj.inj (Except.ok.inj (happly.symm.trans hitems)))
    rintro ⟨_, _⟩ ⟨_, _⟩ ⟨⟩
    rfl
  have hones : ("1", ones) ∈ groups := by
    rw [hgroups]
    exact List.mem_cons_of_mem _ List.mem_cons_self
  exact ⟨hfield, hitems, hagain ("1", ones) hones⟩

end Transforms

end Pipewright
