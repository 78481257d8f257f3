import Pipewright.Proofs.Mentions

/-!
# What a value resolves to

Resolving looks up the references among the strings of a value, in order. If the variables that they begin with are
all defined, the value comes back with every reference replaced by what it stands for and nothing else changed. If
not, the first one that begins with an undefined variable decides the error.
-/
namespace Pipewright

/-! ### References -/

namespace Value

/-- A path leads from a value to one inside it: a name selects an entry of an object, or an item of an array by its
index. -/
inductive Leads : Value → List String → Value → Prop
  | here (v : Value) : Leads v [] v
  | entry {fields : Fields Value} {name : String} {path : List String} {v w : Value}
      (hentry : Fields.get? name fields = some v) (hpath : Leads v path w) : Leads (.obj fields) (name :: path) w
  | item {items : List Value} {name : String} {index : Nat} {path : List String} {v w : Value}
      (hindex : Text.readNat64? name.toList = some index) (hitem : items[index]? = some v) (hpath : Leads v path w) :
      Leads (.arr items) (name :: path) w

theorem leads_of_child {v child w : Value} {name : String} {path : List String} (h : v.child? name = some child)
    (hpath : Leads child path w) : Leads v (name :: path) w := by
  cases v with
  | null | bool | num | str => cases h
  | arr items =>
    obtain ⟨index, hindex, hitem⟩ := Option.bind_eq_some_iff.mp h
    exact .item hindex hitem hpath
  | obj fields => exact .entry h hpath

/-- Following a path finds the value that it leads to, if there is one. -/
theorem follow?_eq_some_iff {path : List String} {v w : Value} : v.follow? path = some w ↔ Leads v path w := by
  constructor
  · intro h
    induction path generalizing v with
    | nil =>
      cases h
      exact .here w
    | cons name path ih =>
      obtain ⟨child, hchild, hpath⟩ := Option.bind_eq_some_iff.mp h
      exact leads_of_child hchild (ih hpath)
  · intro h
    induction h with
    | here v => rfl
    | entry hentry _ ih => rw [follow?, child?, hentry, Option.bind_some, ih]
    | item hindex hitem _ ih =>
      rw [follow?, child?, hindex]
      exact (congrArg (Option.bind · _) hitem).trans ih

end Value

namespace Reference

/-- A reference stands for the value that its path leads to below its variable, and for null if the path leads
nowhere. It stands for nothing if the variable is not defined. -/
def StandsFor (scope : Scope) (r : Reference) (w : Value) : Prop :=
  ∃ v, scope.get? r.root = some v ∧ (v.Leads r.path w ∨ w = .null ∧ ∀ x, ¬ v.Leads r.path x)

variable {scope : Scope} {r : Reference}

theorem standsFor_iff {w : Value} : r.StandsFor scope w ↔ scope.lookup r.root r.path = some w := by
  rw [Scope.lookup, Option.map_eq_some_iff]
  refine exists_congr fun v => and_congr_right fun _ => ?_
  cases hfollow : v.follow? r.path with
  | none =>
    have hnowhere : ∀ x, ¬ v.Leads r.path x := by
      intro x hx
      rw [← Value.follow?_eq_some_iff, hfollow] at hx
      cases hx
    constructor
    · rintro (hw | ⟨rfl, -⟩)
      · exact absurd hw (hnowhere w)
      · rfl
    · rintro rfl
      exact .inr ⟨rfl, hnowhere⟩
  | some x =>
    have hx : v.Leads r.path x := Value.follow?_eq_some_iff.mp hfollow
    constructor
    · rintro (hw | ⟨-, hnowhere⟩)
      · exact Option.some.inj (hfollow.symm.trans (Value.follow?_eq_some_iff.mpr hw))
      · exact absurd hx (hnowhere x)
    · rintro rfl
      exact .inl hx

/-- A reference is resolved to what it stands for. -/
theorem resolve_eq_ok_iff {w : Value} : r.resolve scope = .ok w ↔ r.StandsFor scope w := by
  rw [standsFor_iff, resolve]
  cases scope.lookup r.root r.path with
  | none => simp
  | some v => simp

end Reference

/-! ### Values -/

namespace Value

/-- What a string is a reference to, if it is one. -/
def reference? : Value → Option Reference
  | .str s => Reference.parse? s
  | _ => none

/-- The references among the strings of a value: items in order, and entries in order of key. -/
def references : Value → List Reference :=
  fold (fun v => v.reference?.toList) List.flatten fun entries => entries.flatMap Prod.snd

theorem references_arr (items : List Value) : (arr items).references = items.flatMap references := by
  rw [references, fold, foldItems_eq_map, List.flatMap_def]

theorem references_obj (fields : Fields Value) :
    (obj fields).references = fields.flatMap fun entry => entry.2.references := by
  rw [references, fold, foldFields_eq_map, List.flatMap_map]

theorem references_str_of_some {s : String} {r : Reference} (h : Reference.parse? s = some r) :
    (str s).references = [r] := by
  rw [references, fold, reference?, h, Option.toList_some]

theorem references_str_of_none {s : String} (h : Reference.parse? s = none) : (str s).references = [] := by
  rw [references, fold, reference?, h, Option.toList_none]

/-- The names that a value mentions are those that its references begin with. -/
theorem roots_eq (v : Value) : v.roots = v.references.map Reference.root := by
  induction v using induction with
  | null | bool | num => rfl
  | str s =>
    rw [roots, references, fold, fold, root?, reference?]
    cases Reference.parse? s <;> rfl
  | arr items ih =>
    rw [roots_arr, references_arr, List.map_flatMap, List.flatMap_def, List.flatMap_def, List.map_congr_left ih]
  | obj fields ih =>
    rw [roots_obj, rootsOfFields, references_obj, List.map_flatMap, List.flatMap_def, List.flatMap_def,
      List.map_congr_left ih]

variable {scope : Scope}

mutual

/-- `w` is `v` with every reference replaced by what it stands for: null, booleans, numbers and all other strings are
the same, arrays have as many items, and objects the same keys. What a reference is replaced by is not looked into. -/
inductive Resolves (scope : Scope) : Value → Value → Prop
  | null : Resolves scope .null .null
  | bool (b : Bool) : Resolves scope (.bool b) (.bool b)
  | num (n : Number) : Resolves scope (.num n) (.num n)
  | text {s : String} (hs : Reference.parse? s = none) : Resolves scope (.str s) (.str s)
  | reference {s : String} {r : Reference} {w : Value} (hs : Reference.parse? s = some r)
      (hw : r.StandsFor scope w) : Resolves scope (.str s) w
  | arr {items results : List Value} (h : ResolvesItems scope items results) :
      Resolves scope (.arr items) (.arr results)
  | obj {fields results : Fields Value} (h : ResolvesFields scope fields results) :
      Resolves scope (.obj fields) (.obj results)

inductive ResolvesItems (scope : Scope) : List Value → List Value → Prop
  | nil : ResolvesItems scope [] []
  | cons {v w : Value} {items results : List Value} (hv : Resolves scope v w)
      (hitems : ResolvesItems scope items results) : ResolvesItems scope (v :: items) (w :: results)

inductive ResolvesFields (scope : Scope) : Fields Value → Fields Value → Prop
  | nil : ResolvesFields scope [] []
  | cons (key : String) {v w : Value} {fields results : Fields Value} (hv : Resolves scope v w)
      (hfields : ResolvesFields scope fields results) :
      ResolvesFields scope ((key, v) :: fields) ((key, w) :: results)

end

mutual

/-- A value resolves to no more than one thing, and that is what is computed. -/
theorem Resolves.resolve_eq : ∀ {v w : Value}, Resolves scope v w → v.resolve scope = .ok w
  | _, _, .null | _, _, .bool _ | _, _, .num _ => rfl
  | _, _, .text hs => by rw [resolve, hs]
  | _, _, .reference hs hw => by
    rw [resolve, hs]
    exact Reference.resolve_eq_ok_iff.mpr hw
  | _, _, .arr h => by
    rw [resolve, h.resolveItems_eq]
    rfl
  | _, _, .obj h => by
    rw [resolve, h.resolveFields_eq]
    rfl

theorem ResolvesItems.resolveItems_eq : ∀ {items results : List Value}, ResolvesItems scope items results →
    resolveItems scope items = .ok results
  | _, _, .nil => rfl
  | _, _, .cons hv hitems => by
    rw [resolveItems, hv.resolve_eq, hitems.resolveItems_eq]
    rfl

theorem ResolvesFields.resolveFields_eq : ∀ {fields results : Fields Value}, ResolvesFields scope fields results →
    resolveFields scope fields = .ok results
  | _, _, .nil => rfl
  | _, _, .cons key hv hfields => by
    rw [resolveFields, hv.resolve_eq, hfields.resolveFields_eq]
    rfl

end

/-! ### What decides -/

section

variable {α β : Type} {P : α → Prop} {Q : β → Prop} {references more : List Reference}

/-- References decide an outcome: it is a result, of which something is known, if their variables are all defined,
and otherwise the first undefined one is the error. -/
def DecidedBy (scope : Scope) (references : List Reference) (P : α → Prop) : Except RunError α → Prop
  | .ok a => (∀ r ∈ references, scope.contains r.root = true) ∧ P a
  | .error e => ∃ r, references.find? (fun r => !scope.contains r.root) = some r ∧ e = .undefinedVariable r.root

theorem decidedBy_nil {a : α} (h : P a) : DecidedBy scope [] P (.ok a) := ⟨List.forall_mem_nil _, h⟩

theorem DecidedBy.map {x : Except RunError α} {f : α → β} (h : DecidedBy scope references P x)
    (hf : ∀ a, P a → Q (f a)) : DecidedBy scope references Q (do return f (← x)) := by
  cases x with
  | ok a => exact ⟨h.1, hf a h.2⟩
  | error e => exact h

/-- References that come later decide only if the earlier ones are all defined. -/
theorem DecidedBy.bind {x : Except RunError α} {f : α → Except RunError β} (h : DecidedBy scope references P x)
    (hf : ∀ a, P a → DecidedBy scope more Q (f a)) : DecidedBy scope (references ++ more) Q (x >>= f) := by
  cases x with
  | error e =>
    obtain ⟨r, hr, he⟩ := h
    exact ⟨r, by rw [List.find?_append, hr, Option.some_or], he⟩
  | ok a =>
    obtain ⟨hdefined, ha⟩ := h
    have hnone : references.find? (fun r => !scope.contains r.root) = none :=
      List.find?_eq_none.mpr fun r hr => by rw [hdefined r hr]; decide
    have hrest : DecidedBy scope more Q (f a) := hf a ha
    change DecidedBy scope (references ++ more) Q (f a)
    generalize f a = y at hrest ⊢
    cases y with
    | ok b =>
      refine ⟨fun r hr => ?_, hrest.2⟩
      exact (List.mem_append.mp hr).elim (hdefined r) (hrest.1 r)
    | error e =>
      obtain ⟨r, hr, he⟩ := hrest
      exact ⟨r, by rw [List.find?_append, hnone, Option.none_or, hr], he⟩

end

theorem decidedBy_resolveItems {items : List Value}
    (h : ∀ v ∈ items, DecidedBy scope v.references (Resolves scope v) (v.resolve scope)) :
    DecidedBy scope (items.flatMap references) (ResolvesItems scope items) (resolveItems scope items) := by
  induction items with
  | nil => exact decidedBy_nil .nil
  | cons v rest ih =>
    rw [resolveItems, List.flatMap_cons]
    refine (h v List.mem_cons_self).bind fun w hw => ?_
    exact (ih fun u hu => h u (List.mem_cons_of_mem _ hu)).map fun results hresults => .cons hw hresults

theorem decidedBy_resolveFields {fields : Fields Value}
    (h : ∀ entry ∈ fields, DecidedBy scope entry.2.references (Resolves scope entry.2) (entry.2.resolve scope)) :
    DecidedBy scope (fields.flatMap fun entry => entry.2.references) (ResolvesFields scope fields)
      (resolveFields scope fields) := by
  induction fields with
  | nil => exact decidedBy_nil .nil
  | cons entry rest ih =>
    obtain ⟨key, v⟩ := entry
    rw [resolveFields, List.flatMap_cons]
    refine (h (key, v) List.mem_cons_self).bind fun w hw => ?_
    exact (ih fun entry hentry => h entry (List.mem_cons_of_mem _ hentry)).map
      fun results hresults => .cons key hw hresults

/-- The references in a value decide what it resolves to. -/
theorem decidedBy_resolve (scope : Scope) (v : Value) :
    DecidedBy scope v.references (Resolves scope v) (v.resolve scope) := by
  induction v using induction with
  | null => exact decidedBy_nil .null
  | bool b => exact decidedBy_nil (.bool b)
  | num n => exact decidedBy_nil (.num n)
  | str s =>
    cases hparse : Reference.parse? s with
    | none =>
      rw [resolve, hparse, references_str_of_none hparse]
      exact decidedBy_nil (.text hparse)
    | some r =>
      have hcontains : scope.contains r.root = (scope.lookup r.root r.path).isSome := by
        rw [Scope.contains_eq, Scope.lookup, Option.isSome_map]
      rw [resolve, hparse, references_str_of_some hparse]
      change DecidedBy scope [r] (Resolves scope (.str s)) (r.resolve scope)
      cases hlookup : scope.lookup r.root r.path with
      | none =>
        have hundefined : scope.contains r.root = false := by rw [hcontains, hlookup, Option.isSome_none]
        rw [Reference.resolve, hlookup]
        exact ⟨r, List.find?_cons_of_pos (by rw [hundefined]; rfl), rfl⟩
      | some w =>
        have hdefined : scope.contains r.root = true := by rw [hcontains, hlookup, Option.isSome_some]
        rw [Reference.resolve, hlookup]
        refine ⟨fun q hq => ?_, .reference hparse (Reference.standsFor_iff.mpr hlookup)⟩
        rw [List.mem_singleton.mp hq, hdefined]
  | arr items ih =>
    rw [resolve, references_arr]
    exact (decidedBy_resolveItems ih).map fun results hresults => .arr hresults
  | obj fields ih =>
    rw [resolve, references_obj]
    exact (decidedBy_resolveFields ih).map fun results hresults => .obj hresults

/-- Resolving succeeds exactly if every reference in the value begins with a defined variable, and then gives the
value with its references replaced; otherwise the error names the first undefined one. Of the scope, only what those
variables are bound to has a part in it. -/
theorem resolve_spec (scope : Scope) (v : Value) :
    (∀ w, v.resolve scope = .ok w ↔ Resolves scope v w) ∧
    ((∃ w, v.resolve scope = .ok w) ↔ ∀ r ∈ v.references, scope.contains r.root = true) ∧
    (∀ e, v.resolve scope = .error e ↔
      ∃ r, v.references.find? (fun r => !scope.contains r.root) = some r ∧ e = .undefinedVariable r.root) ∧
    ∀ other : Scope, (∀ r ∈ v.references, other.get? r.root = scope.get? r.root) →
      v.resolve other = v.resolve scope := by
  have hdecided := decidedBy_resolve scope v
  have hagree (other : Scope) (h : ∀ r ∈ v.references, other.get? r.root = scope.get? r.root) :
      v.resolve other = v.resolve scope := by
    refine resolve_of_agreeOn ?_
    rw [roots_eq]
    exact List.forall_mem_map.mpr h
  cases hresolve : v.resolve scope with
  | ok w =>
    rw [hresolve] at hdecided
    have hnone : v.references.find? (fun r => !scope.contains r.root) = none :=
      List.find?_eq_none.mpr fun r hr => by rw [hdecided.1 r hr]; decide
    refine ⟨fun x => ⟨?_, ?_⟩, ?_, fun e => ?_, fun other h => (hagree other h).trans hresolve⟩
    · rintro ⟨⟩
      exact hdecided.2
    · exact fun hx => hresolve.symm.trans hx.resolve_eq
    · exact ⟨fun _ => hdecided.1, fun _ => ⟨w, rfl⟩⟩
    · rw [hnone]
      simp
  | error e =>
    rw [hresolve] at hdecided
    obtain ⟨r, hfirst, rfl⟩ := hdecided
    have hr := List.find?_some hfirst
    refine ⟨fun x => ⟨?_, ?_⟩, ⟨?_, fun hdefined => ?_⟩, fun e => ?_, fun other h => (hagree other h).trans hresolve⟩
    · rintro ⟨⟩
    · exact fun hx => nomatch hresolve.symm.trans hx.resolve_eq
    · rintro ⟨w, ⟨⟩⟩
    · rw [hdefined r (List.mem_of_find?_eq_some hfirst)] at hr
      cases hr
    · rw [hfirst]
      simp [eq_comm]

/-- What looks like a reference in the value that is put in stays as it is, a path that leads nowhere gives null, and
a string that merely contains a reference is no reference. -/
theorem resolve_spec_nested :
    let scope := Scope.ofFields [("post", .obj [("tags", .arr [.str "a", .str "$post"])])]
    let v : Value := .obj [("first", .str "$post.tags.1"), ("rest", .arr [.str "$post.title", .str "of $post"])]
    let w : Value := .obj [("first", .str "$post"), ("rest", .arr [.null, .str "of $post"])]
    Resolves scope v w ∧ (∃ w, v.resolve scope = .ok w) ∧
      (arr [v, .str "$a.b", .str "$b"]).resolve scope = .error (.undefinedVariable "a") ∧
      v.resolve (scope.set "a" w) = v.resolve scope := by
  intro scope v w
  have hdefined : ∀ r ∈ v.references, scope.contains r.root = true := by decide +kernel
  have hagree : ∀ r ∈ v.references, (scope.set "a" w).get? r.root = scope.get? r.root := by
    have hroots : ∀ r ∈ v.references, "a" ≠ r.root := by decide +kernel
    exact fun r hr => Scope.get?_set_of_ne (hroots r hr) scope w
  refine ⟨((resolve_spec scope v).1 w).mp rfl, (resolve_spec scope v).2.1.mpr hdefined, ?_,
    (resolve_spec scope v).2.2.2 _ hagree⟩
  exact ((resolve_spec scope _).2.2.1 _).mpr ⟨⟨"a", ["b"]⟩, rfl, rfl⟩

end Value

end Pipewright
