import Mathlib.Algebra.Order.Ring.Nat
import Mathlib.Data.List.Basic
import Pipewright.Proofs.ValueInduction
import Pipewright.Transforms.Catalog

/-!
# Flattening and batches

Flattening puts the items of inner arrays in their place. To do so down to one depth and then to another is to do so
down to the sum of both. Without a depth nothing is left to flatten: what remains are the values that are not arrays,
in the order of the ways that lead to them. Cutting into batches adds one level of arrays, and flattening by one level
takes it away again, whatever the items are.
-/
namespace Pipewright

namespace Value

/-! ### Ways to the leaves -/

/-- What holds of a value that is not an array, and of an array whose items it holds of, holds of all values. -/
@[elab_as_elim]
theorem arrayInduction {P : Value → Prop} (leaf : ∀ v : Value, v.kind ≠ .array → P v)
    (arr : ∀ items, (∀ item ∈ items, P item) → P (.arr items)) (v : Value) : P v := by
  induction v using induction with
  | arr items ih => exact arr items ih
  | null | bool | num | str | obj => exact leaf _ nofun

/-- The value at the end of a way of indices through nested arrays. -/
def descend? : List Nat → Value → Option Value
  | [], v => some v
  | i :: way, .arr items => items[i]?.bind (descend? way)
  | _ :: _, _ => none

mutual

/-- The ways that lead to what is not an array, from the front. -/
def leafWays : Value → List (List Nat)
  | .arr items => itemWays 0 items
  | _ => [[]]

/-- The ways that lead into items, the first of which has the index `i`. -/
def itemWays (i : Nat) : List Value → List (List Nat)
  | [] => []
  | item :: rest => (leafWays item).map (i :: ·) ++ itemWays (i + 1) rest

end

variable {v : Value} {items : List Value} {way : List Nat} {i : Nat}

theorem leafWays_of_leaf (h : v.kind ≠ .array) : v.leafWays = [[]] := by
  cases v with
  | arr => exact absurd rfl h
  | _ => rfl

theorem descend?_cons_of_leaf (h : v.kind ≠ .array) : v.descend? (i :: way) = none := by
  cases v with
  | arr => exact absurd rfl h
  | _ => rfl

theorem mem_itemWays :
    way ∈ itemWays i items ↔ ∃ j item rest, items[j]? = some item ∧ rest ∈ leafWays item ∧ way = (i + j) :: rest := by
  induction items generalizing i with
  | nil => simp [itemWays]
  | cons first others ih =>
    rw [itemWays, List.mem_append, List.mem_map, ih]
    constructor
    · rintro (⟨rest, hrest, rfl⟩ | ⟨j, item, rest, hitem, hrest, rfl⟩)
      · exact ⟨0, first, rest, rfl, hrest, rfl⟩
      · exact ⟨j + 1, item, rest, hitem, hrest, congrArg (· :: rest) (by omega)⟩
    · rintro ⟨j, item, rest, hitem, hrest, rfl⟩
      cases j with
      | zero =>
        cases hitem
        exact .inl ⟨rest, hrest, rfl⟩
      | succ j => exact .inr ⟨j, item, rest, hitem, hrest, congrArg (· :: rest) (by omega)⟩

/-- The ways are those to what is not an array. -/
theorem mem_leafWays : way ∈ v.leafWays ↔ ∃ leaf, v.descend? way = some leaf ∧ leaf.kind ≠ .array := by
  induction v using arrayInduction generalizing way with
  | leaf v hleaf =>
    rw [leafWays_of_leaf hleaf, List.mem_singleton]
    cases way with
    | nil => exact ⟨fun _ => ⟨v, rfl, hleaf⟩, fun _ => rfl⟩
    | cons i way =>
      rw [descend?_cons_of_leaf hleaf]
      constructor
      · exact nofun
      · rintro ⟨_, h, -⟩
        cases h
  | arr items ih =>
    rw [leafWays, mem_itemWays]
    constructor
    · rintro ⟨j, item, rest, hitem, hrest, rfl⟩
      obtain ⟨leaf, hleaf, hkind⟩ := (ih item (List.mem_of_getElem? hitem)).mp hrest
      refine ⟨leaf, ?_, hkind⟩
      rw [Nat.zero_add, descend?, hitem]
      exact hleaf
    · rintro ⟨leaf, hleaf, hkind⟩
      cases way with
      | nil =>
        cases hleaf
        exact absurd rfl hkind
      | cons j rest =>
        obtain ⟨item, hitem, hrest⟩ := Option.bind_eq_some_iff.mp hleaf
        have hway := (ih item (List.mem_of_getElem? hitem)).mpr ⟨leaf, hrest, hkind⟩
        exact ⟨j, item, rest, hitem, hway, congrArg (· :: rest) (Nat.zero_add j).symm⟩

theorem pairwise_itemWays (h : ∀ item ∈ items, (leafWays item).Pairwise (· < ·)) (i : Nat) :
    (itemWays i items).Pairwise (· < ·) := by
  induction items generalizing i with
  | nil => exact List.Pairwise.nil
  | cons first others ih =>
    rw [itemWays, List.pairwise_append]
    refine ⟨?_, ih (fun item hitem => h item (List.mem_cons_of_mem _ hitem)) (i + 1), ?_⟩
    · exact (h first List.mem_cons_self).map _ fun _ _ hlt => List.cons_lt_cons_iff.mpr (.inr ⟨rfl, hlt⟩)
    · intro way hway other hother
      obtain ⟨rest, -, rfl⟩ := List.mem_map.mp hway
      obtain ⟨j, _, more, -, -, rfl⟩ := mem_itemWays.mp hother
      exact List.cons_lt_cons_iff.mpr (.inl (by omega))

/-- The ways ascend: of two that part, the one to the earlier item comes first. -/
theorem pairwise_leafWays (v : Value) : v.leafWays.Pairwise (· < ·) := by
  induction v using arrayInduction with
  | leaf v hleaf =>
    rw [leafWays_of_leaf hleaf]
    exact List.pairwise_singleton _ _
  | arr items ih => exact pairwise_itemWays ih 0

end Value

namespace Transforms

variable {v : Value} {items : List Value}

/-! ### Flattening by depths -/

/-- How deep two flattenings go, one after the other; without a depth, one goes all the way. -/
def depthSum : Option Nat → Option Nat → Option Nat
  | some a, some b => some (a + b)
  | _, _ => none

theorem flattenItem_of_leaf (h : v.kind ≠ .array) (d : Option Nat) : flattenItem d v = [v] := by
  cases v with
  | arr => exact absurd rfl h
  | _ => rfl

theorem flattenItem_zero (v : Value) : flattenItem (some 0) v = [v] := by
  cases v <;> rfl

theorem flattenItem_deeper (d : Option Nat) (items : List Value) :
    flattenItem (d.map (· + 1)) (.arr items) = flattenTo d items := by
  cases d <;> rfl

theorem flattenTo_eq_flatMap (d : Option Nat) (items : List Value) :
    flattenTo d items = items.flatMap (flattenItem d) := by
  induction items with
  | nil => rfl
  | cons item rest ih => rw [flattenTo, List.flatMap_cons, ih]

theorem flattenTo_zero (items : List Value) : flattenTo (some 0) items = items := by
  rw [flattenTo_eq_flatMap, funext flattenItem_zero]
  exact List.flatMap_singleton' items

theorem flattenTo_of_items {d e f : Option Nat}
    (h : ∀ item ∈ items, flattenTo e (flattenItem d item) = flattenItem f item) :
    flattenTo e (flattenTo d items) = flattenTo f items := by
  simp only [flattenTo_eq_flatMap] at h ⊢
  rw [List.flatMap_assoc]
  exact List.flatMap_congr h

/-- By induction on the item: an inner array is either left as it is, or opened one level less deep. -/
theorem flattenTo_flattenItem (d e : Option Nat) (v : Value) :
    flattenTo e (flattenItem d v) = flattenItem (depthSum d e) v := by
  induction v using Value.arrayInduction generalizing d with
  | leaf v hleaf =>
    rw [flattenItem_of_leaf hleaf, flattenItem_of_leaf hleaf, flattenTo, flattenItem_of_leaf hleaf]
    rfl
  | arr items ih =>
    have hdeeper (d : Option Nat) :
        flattenTo e (flattenItem (d.map (· + 1)) (.arr items)) =
          flattenItem ((depthSum d e).map (· + 1)) (.arr items) := by
      rw [flattenItem_deeper, flattenItem_deeper]
      exact flattenTo_of_items fun item hitem => ih item hitem d
    match d, e with
    | none, e => exact hdeeper none
    | some 0, e =>
      rw [flattenItem_zero, flattenTo]
      cases e with
      | none => exact List.append_nil _
      | some b =>
        rw [depthSum, Nat.zero_add]
        exact List.append_nil _
    | some (a + 1), none => exact hdeeper (some a)
    | some (a + 1), some b =>
      rw [depthSum, Nat.add_right_comm]
      exact hdeeper (some a)

theorem flattenTo_flattenTo (d e : Option Nat) (items : List Value) :
    flattenTo e (flattenTo d items) = flattenTo (depthSum d e) items :=
  flattenTo_of_items fun item _ => flattenTo_flattenItem d e item

/-! ### The leaves -/

/-- `leaves` is what is not an array in the items, at any depth: one value for each way that leads to one, in the order
of the ways. -/
def AreLeaves (items leaves : List Value) : Prop :=
  ∃ ways : List (List Nat), ways.Pairwise (· < ·) ∧
    (∀ way, way ∈ ways ↔ ∃ leaf, (Value.arr items).descend? way = some leaf ∧ leaf.kind ≠ .array) ∧
    leaves.map some = ways.map fun way => (Value.arr items).descend? way

theorem AreLeaves.kind_ne {leaves : List Value} (h : AreLeaves items leaves) : ∀ leaf ∈ leaves, leaf.kind ≠ .array := by
  obtain ⟨ways, -, hways, hmap⟩ := h
  intro leaf hleaf
  have hsome : some leaf ∈ leaves.map some := List.mem_map_of_mem hleaf
  rw [hmap] at hsome
  obtain ⟨way, hway, hdescend⟩ := List.mem_map.mp hsome
  obtain ⟨other, hother, hkind⟩ := (hways way).mp hway
  cases hdescend.symm.trans hother
  exact hkind

/-- The items are the last ones of an array, from the index `i` on. -/
theorem map_descend?_itemWays {whole : List Value} {i : Nat} (hwhole : ∀ j, whole[i + j]? = items[j]?)
    (h : ∀ item ∈ items, item.leafWays.map (fun way => item.descend? way) = (flattenItem none item).map some) :
    ((Value.itemWays i items).map fun way => (Value.arr whole).descend? way) = (flattenTo none items).map some := by
  induction items generalizing i with
  | nil => rfl
  | cons first others ih =>
    have hfirst (rest : List Nat) : (Value.arr whole).descend? (i :: rest) = first.descend? rest := by
      have hitem : whole[i]? = some first := hwhole 0
      rw [Value.descend?, hitem]
      rfl
    have hothers (j : Nat) : whole[i + 1 + j]? = others[j]? := by
      rw [Nat.add_right_comm]
      exact hwhole (j + 1)
    rw [Value.itemWays, flattenTo, List.map_append, List.map_append, List.map_map,
      ih hothers fun item hitem => h item (List.mem_cons_of_mem _ hitem), ← h first List.mem_cons_self]
    exact congrArg (· ++ _) (List.map_congr_left fun rest _ => hfirst rest)

theorem map_descend?_leafWays (v : Value) :
    (v.leafWays.map fun way => v.descend? way) = (flattenItem none v).map some := by
  induction v using Value.arrayInduction with
  | leaf v hleaf =>
    rw [Value.leafWays_of_leaf hleaf, flattenItem_of_leaf hleaf]
    rfl
  | arr items ih => exact map_descend?_itemWays (fun j => congrArg (items[·]?) (Nat.zero_add j)) ih

theorem areLeaves_flattenTo (items : List Value) : AreLeaves items (flattenTo none items) :=
  ⟨(Value.arr items).leafWays, Value.pairwise_leafWays _, fun _ => Value.mem_leafWays,
    (map_descend?_leafWays (.arr items)).symm⟩

/-! ### Batches -/

/-- Batches of `n` items: none is empty, none is longer, and only the last may be shorter. -/
structure AreBatches (n : Nat) (parts : List (List Value)) : Prop where
  nonempty : ∀ part ∈ parts, part ≠ []
  bounded : ∀ part ∈ parts, part.length ≤ n
  full : ∀ part ∈ parts.dropLast, part.length = n

theorem flatten_batches (more : Nat) (items : List Value) : (batches more items).flatten = items := by
  induction items using batches.induct more with
  | case1 => rw [batches, List.flatten_nil]
  | case2 item rest ih => rw [batches, List.flatten_cons, ih, List.cons_append, List.take_append_drop]

theorem areBatches_batches (more : Nat) (items : List Value) : AreBatches (more + 1) (batches more items) := by
  induction items using batches.induct more with
  | case1 =>
    rw [batches]
    exact ⟨nofun, nofun, nofun⟩
  | case2 item rest ih =>
    rw [batches]
    refine ⟨?_, ?_, ?_⟩
    · exact List.forall_mem_cons.mpr ⟨List.cons_ne_nil _ _, ih.nonempty⟩
    · refine List.forall_mem_cons.mpr ⟨?_, ih.bounded⟩
      rw [List.length_cons, List.length_take]
      omega
    · cases hparts : batches more (rest.drop more) with
      | nil => exact nofun
      | cons part parts =>
        -- Something is left behind the first batch, and so that one is full.
        have hleft : rest.drop more ≠ [] := by
          intro hnil
          rw [hnil, batches] at hparts
          cases hparts
        rw [← hparts, List.dropLast_cons_of_ne_nil (hparts ▸ List.cons_ne_nil _ _)]
        refine List.forall_mem_cons.mpr ⟨?_, ih.full⟩
        have hlength := List.length_pos_iff.mpr hleft
        rw [List.length_drop] at hlength
        rw [List.length_cons, List.length_take]
        omega

/-- One level of arrays is taken away, and no array inside is opened. -/
theorem flattenTo_one (parts : List (List Value)) : flattenTo (some 1) (parts.map .arr) = parts.flatten := by
  have hpart (part : List Value) : flattenItem (some 1) (.arr part) = part := flattenTo_zero part
  rw [flattenTo_eq_flatMap, List.flatMap_map, funext hpart]
  exact List.flatMap_id'

/-! ### What parameters ask for -/

/-- The parameters give a depth to flatten to, or give none. -/
def AskDepth (params : Params) (d : Option Nat) : Prop := intParam params "depth" = .ok (d.map Nat.cast)

/-- The parameters ask for batches of `n` items, or of ten if they give no size. -/
def AskSize (params : Params) (n : Nat) : Prop := ∃ size, intParam params "size" = .ok size ∧ size.getD 10 = n

theorem apply_flatten {params : Params} {d : Option Nat} (h : AskDepth params d) (items : List Value) :
    Transform.flatten.apply params (.arr items) = .ok (.arr (flattenTo d items)) := by
  have hflatten : flatten params items = .ok (flattenTo d items) := by
    rw [flatten, h]
    cases d with
    | none => rfl
    | some d =>
      change (if (d : Int) < 0 then .error .negativeDepth else _) = _
      exact if_neg (Int.not_lt.mpr (Int.natCast_nonneg d))
  change (flatten params items >>= fun flat => pure (Value.arr flat)) = _
  rw [hflatten]
  rfl

theorem apply_chunk {params : Params} {n : Nat} (h : AskSize params n) (hn : 0 < n) (items : List Value) :
    Transform.chunk.apply params (.arr items) = .ok (.arr ((batches (n - 1) items).map .arr)) := by
  obtain ⟨size, hsize, hget⟩ := h
  have hchunk : chunk params items = .ok ((batches (n - 1) items).map .arr) := by
    rw [chunk, hsize]
    change (if size.getD 10 < 1 then _ else _) = _
    rw [hget]
    exact if_neg (by omega)
  change (chunk params items >>= fun parts => pure (Value.arr parts)) = _
  rw [hchunk]
  rfl

/-- Flattening to two depths in turn is flattening to their sum. Without a depth it gives the leaves in order, and then
no flattening, before it or after it, changes anything. Batches of any size hold the items in order, and flattening by
one level gives them back. -/
theorem flatten_chunk (items : List Value) :
    (∀ {first second both : Params} {a b : Nat}, AskDepth first (some a) → AskDepth second (some b) →
      AskDepth both (some (a + b)) →
      ∃ once flat, Transform.flatten.apply first (.arr items) = .ok (.arr once) ∧
        Transform.flatten.apply second (.arr once) = .ok (.arr flat) ∧
        Transform.flatten.apply both (.arr items) = .ok (.arr flat)) ∧
    (∀ {full : Params}, AskDepth full none →
      ∃ leaves, Transform.flatten.apply full (.arr items) = .ok (.arr leaves) ∧
        (∀ leaf ∈ leaves, leaf.kind ≠ .array) ∧ AreLeaves items leaves ∧
        ∀ {params : Params} {d : Option Nat}, AskDepth params d →
          Transform.flatten.apply params (.arr leaves) = .ok (.arr leaves) ∧
          ∃ once, Transform.flatten.apply params (.arr items) = .ok (.arr once) ∧
            Transform.flatten.apply full (.arr once) = .ok (.arr leaves)) ∧
    ∀ {params : Params} {n : Nat}, AskSize params n → 0 < n →
      ∃ parts : List (List Value), Transform.chunk.apply params (.arr items) = .ok (.arr (parts.map .arr)) ∧
        AreBatches n parts ∧
        ∀ {one : Params}, AskDepth one (some 1) →
          Transform.flatten.apply one (.arr (parts.map .arr)) = .ok (.arr items) := by
  refine ⟨?_, ?_, ?_⟩
  · intro first second both a b hfirst hsecond hboth
    refine ⟨_, _, apply_flatten hfirst items, apply_flatten hsecond _, ?_⟩
    rw [apply_flatten hboth, flattenTo_flattenTo]
    rfl
  · intro full hfull
    have hleaves := areLeaves_flattenTo items
    refine ⟨_, apply_flatten hfull items, hleaves.kind_ne, hleaves, ?_⟩
    intro params d hparams
    refine ⟨?_, _, apply_flatten hparams items, ?_⟩
    · rw [apply_flatten hparams, flattenTo_flattenTo]
      rfl
    · rw [apply_flatten hfull, flattenTo_flattenTo]
      cases d <;> rfl
  · intro params n hsize hn
    obtain ⟨more, rfl⟩ := Nat.exists_eq_add_one.mpr hn
    refine ⟨_, apply_chunk hsize hn items, areBatches_batches more items, ?_⟩
    intro one hone
    rw [apply_flatten hone, flattenTo_one]
    exact congrArg (fun items => Except.ok (Value.arr items)) (flatten_batches more items)

/-- Arrays down to the fourth level, where one is empty: flattened by one level and then by two, all the way, and cut
into batches of two, as a text says. -/
theorem flatten_chunk_nested :
    let items : List Value := [.int 1, .arr [.int 2, .arr [.int 3, .arr [.arr [], .int 4]]], .arr [.str "a"]]
    let one : Params := [("depth", .int 1)]
    let two : Params := [("depth", .str " 2")]
    let three : Params := [("depth", .int 3)]
    let pairs : Params := [("size", .str "+2 ")]
    let leaves : List Value := [.int 1, .int 2, .int 3, .int 4, .str "a"]
    AskDepth one (some 1) ∧ AskDepth two (some 2) ∧ AskDepth three (some 3) ∧ AskDepth [] none ∧ AskSize pairs 2 ∧
      (∃ once, Transform.flatten.apply one (.arr items) = .ok (.arr once) ∧
        Transform.flatten.apply two (.arr once) = Transform.flatten.apply three (.arr items)) ∧
      Transform.flatten.apply [] (.arr items) = .ok (.arr leaves) ∧ AreLeaves items leaves ∧
      Transform.flatten.apply two (.arr leaves) = .ok (.arr leaves) ∧
      ∃ parts : List (List Value), Transform.chunk.apply pairs (.arr items) = .ok (.arr (parts.map .arr)) ∧
        AreBatches 2 parts ∧ Transform.flatten.apply one (.arr (parts.map .arr)) = .ok (.arr items) := by
  intro items one two three pairs leaves
  have hone : AskDepth one (some 1) := rfl
  have htwo : AskDepth two (some 2) := rfl
  have hthree : AskDepth three (some 3) := rfl
  have hnone : AskDepth [] none := rfl
  have hpairs : AskSize pairs 2 := ⟨some 2, by decide +kernel, rfl⟩
  obtain ⟨hsum, hfull, hbatches⟩ := flatten_chunk items
  obtain ⟨once, flat, hfirst, hsecond, hboth⟩ := hsum hone htwo hthree
  obtain ⟨found, hfound, -, hleaves, hagain⟩ := hfull hnone
  obtain ⟨parts, hparts, hare, hback⟩ := hbatches hpairs (by decide)
  have heq : Transform.flatten.apply [] (.arr items) = .ok (.arr leaves) := rfl
  cases hfound.symm.trans heq
  exact ⟨hone, htwo, hthree, hnone, hpairs, ⟨once, hfirst, hsecond.trans hboth.symm⟩, heq, hleaves, (hagain htwo).1,
    parts, hparts, hare, hback hone⟩

end Transforms

end Pipewright
