import Pipewright.Definition.Decode
import Pipewright.Validation

/-!
# Induction over values

An array is made of items and an object of entries. What is to be shown of all values is shown of the leaves, and
of arrays and objects from what is known of their parts; so are the reading and the checks of a value put together.
-/
namespace Pipewright

namespace Value

/-- A property that arrays and objects inherit from their parts holds of every value if it holds of the leaves. -/
@[elab_as_elim]
theorem induction {P : Value → Prop} (null : P .null) (bool : ∀ b, P (.bool b)) (num : ∀ n, P (.num n))
    (str : ∀ s, P (.str s)) (arr : ∀ items, (∀ v ∈ items, P v) → P (.arr items))
    (obj : ∀ fields, (∀ entry ∈ fields, P entry.2) → P (.obj fields)) : ∀ v, P v
  | .null => null
  | .bool b => bool b
  | .num n => num n
  | .str s => str s
  | .arr items => arr items fun v _ => induction null bool num str arr obj v
  | .obj fields => obj fields fun entry _ => induction null bool num str arr obj entry.2
termination_by v => sizeOf v
decreasing_by
  · decreasing_tactic
  · next hentry =>
    have hsize := List.sizeOf_lt_of_mem hentry
    have hpair : sizeOf entry = 1 + sizeOf entry.1 + sizeOf entry.2 := Prod.mk.sizeOf_spec _ _
    rw [Value.obj.sizeOf_spec]
    omega

section

variable {α : Type} (leaf : Value → α) (ofItems : List α → α) (ofEntries : List (String × α) → α)

theorem foldItems_eq_map (items : List Value) :
    foldItems leaf ofItems ofEntries items = items.map (fold leaf ofItems ofEntries) := by
  induction items with
  | nil => rfl
  | cons v rest ih => rw [foldItems, List.map_cons, ih]

theorem foldFields_eq_map (fields : List (String × Value)) :
    foldFields leaf ofItems ofEntries fields =
      fields.map fun entry => (entry.1, fold leaf ofItems ofEntries entry.2) := by
  induction fields with
  | nil => rfl
  | cons head rest ih =>
    obtain ⟨key, v⟩ := head
    rw [foldFields, List.map_cons, ih]

/-- What a fold is made to remember, the value that it is of, it remembers. -/
theorem project_fold {project : α → Value} (hleaf : ∀ v, project (leaf v) = v)
    (hitems : ∀ items, project (ofItems items) = arr (items.map project))
    (hentries : ∀ entries, project (ofEntries entries) = obj (entries.map fun entry => (entry.1, project entry.2)))
    (v : Value) : project (fold leaf ofItems ofEntries v) = v := by
  induction v using induction with
  | null | bool | num | str => exact hleaf _
  | arr items ih =>
    have hmap : items.map (fun v => project (fold leaf ofItems ofEntries v)) = items.map id :=
      List.map_congr_left ih
    rw [fold, foldItems_eq_map, hitems, List.map_map]
    exact congrArg arr (hmap.trans (List.map_id items))
  | obj fields ih =>
    have hmap : fields.map (fun entry => (entry.1, project (fold leaf ofItems ofEntries entry.2))) =
        fields.map id :=
      List.map_congr_left fun entry hentry => Prod.ext rfl (ih entry hentry)
    rw [fold, foldFields_eq_map, hentries, List.map_map]
    exact congrArg obj (hmap.trans (List.map_id fields))

end

theorem reading_arr (items : List Value) : (arr items).reading = .ofItems (items.map reading) := by
  rw [reading, fold, foldItems_eq_map]

theorem reading_obj (fields : Fields Value) :
    (obj fields).reading = .ofEntries (fields.map fun entry => (entry.1, entry.2.reading)) := by
  rw [reading, fold, foldFields_eq_map]

theorem inspection_arr (items : List Value) : (arr items).inspection = .ofItems (items.map inspection) := by
  rw [inspection, fold, foldItems_eq_map]

theorem inspection_obj (fields : Fields Value) :
    (obj fields).inspection = .ofEntries (fields.map fun entry => (entry.1, entry.2.inspection)) := by
  rw [inspection, fold, foldFields_eq_map]

@[simp] theorem reading_value (v : Value) : v.reading.value = v :=
  project_fold Reading.leaf Reading.ofItems Reading.ofEntries (fun _ => rfl) (fun _ => rfl) (fun _ => rfl) v

@[simp] theorem inspection_value (v : Value) : v.inspection.value = v :=
  project_fold Inspection.leaf Inspection.ofItems Inspection.ofEntries (fun _ => rfl) (fun _ => rfl)
    (fun _ => rfl) v

end Value

end Pipewright
