import Pipewright.Proofs.ValueInduction

/-!
# The order of values is a total preorder

Numbers are ordered by the integer that their double comes to in units of the smallest one, so none of them is
incomparable. Arrays and objects are ordered by their parts, and what is known of three parts in a row carries over to
three wholes in a row.
-/
namespace Pipewright

/-! ### Doubles and numbers -/

namespace Double

/-- The signed number of units. An infinity counts as the first magnitude that is not finite. -/
def scaled : Double → Int
  | .nan => 0
  | .infinite negative => if negative then -limit else limit
  | .finite x => x.scaled

theorem limit_pos : 0 < limit := by decide +kernel

end Double

theorem FiniteDouble.scaled_bounds (x : FiniteDouble) :
    -(Double.limit : Int) < x.scaled ∧ x.scaled < Double.limit := by
  have hlimit := x.representable.1
  unfold scaled
  split <;> omega

namespace Double

theorem scaled_infinite (negative : Bool) :
    (infinite negative).scaled = if negative then -(limit : Int) else limit := rfl

/-- Only a NaN is incomparable; all else is ordered by its units. -/
theorem compare?_of_ne_nan {x y : Double} (hx : x ≠ .nan) (hy : y ≠ .nan) :
    compare? x y = some (compare x.scaled y.scaled) := by
  cases x with
  | nan => exact absurd rfl hx
  | infinite a =>
    cases y with
    | nan => exact absurd rfl hy
    | infinite b =>
      have hlimit := limit_pos
      have hlt : compare (-(limit : Int)) limit = .lt := Int.compare_eq_lt.mpr (by omega)
      have hgt : compare (limit : Int) (-(limit : Int)) = .gt := Int.compare_eq_gt.mpr (by omega)
      rw [scaled_infinite, scaled_infinite]
      cases a <;> cases b
      · exact congrArg some Std.ReflOrd.compare_self.symm
      · exact congrArg some hgt.symm
      · exact congrArg some hlt.symm
      · exact congrArg some Std.ReflOrd.compare_self.symm
    | finite y =>
      have hbounds := y.scaled_bounds
      rw [scaled_infinite]
      cases a
      · exact congrArg some (Int.compare_eq_gt.mpr hbounds.2).symm
      · exact congrArg some (Int.compare_eq_lt.mpr hbounds.1).symm
  | finite x =>
    cases y with
    | nan => exact absurd rfl hy
    | infinite b =>
      have hbounds := x.scaled_bounds
      rw [scaled_infinite]
      cases b
      · exact congrArg some (Int.compare_eq_lt.mpr hbounds.2).symm
      · exact congrArg some (Int.compare_eq_gt.mpr hbounds.1).symm
    | finite y => rfl

theorem round_ne_nan (negative : Bool) (num den : Nat) : round negative num den ≠ .nan := by
  unfold round
  dsimp only
  split <;> exact nofun

theorem ofInt_ne_nan (n : Int) : ofInt n ≠ .nan := round_ne_nan _ _ _

end Double

namespace Number

/-- The signed number of units of the double that a number is compared as. -/
def scaled (n : Number) : Int := n.toDouble.scaled

theorem toDouble_ne_nan : ∀ n : Number, n.toDouble ≠ .nan
  | .int n => Double.ofInt_ne_nan n
  | .float _ => nofun

end Number

/-! ### Three comparisons -/

/-- Of three things in a row, none greater than the next, the outer two compare as the first pair that differs. -/
def Transits (ab bc ac : Ordering) : Prop := ab.isLE → bc.isLE → ac = ab.then bc

theorem transits_of_transCmp {α : Type} (cmp : α → α → Ordering) [Std.TransCmp cmp] (a b c : α) :
    Transits (cmp a b) (cmp b c) (cmp a c) := by
  intro hab hbc
  cases heq : cmp a b with
  | lt => exact Std.TransCmp.lt_of_lt_of_isLE heq hbc
  | eq => exact Std.TransCmp.congr_left heq
  | gt =>
    rw [heq] at hab
    contradiction

/-- The first difference decides among wholes as it does among their parts. The rest counts only where the first parts
are all equal. -/
theorem Transits.lex {ab bc ac ab' bc' ac' : Ordering} (h : Transits ab bc ac)
    (h' : ab = .eq → bc = .eq → Transits ab' bc' ac') :
    Transits (ab.then ab') (bc.then bc') (ac.then ac') := by
  intro hab hbc
  cases ab with
  | gt => contradiction
  | lt =>
    cases bc with
    | gt => contradiction
    | lt | eq => rw [h rfl rfl]; rfl
  | eq =>
    cases bc with
    | gt => contradiction
    | lt =>
      rw [h rfl rfl]
      cases ab' with
      | gt => contradiction
      | lt | eq => rfl
    | eq =>
      rw [h rfl rfl]
      exact h' rfl rfl hab hbc

namespace Value

theorem compareNumbers_eq (m n : Number) : compareNumbers m n = Ord.compare m.scaled n.scaled := by
  rw [compareNumbers, Double.compare?_of_ne_nan m.toDouble_ne_nan n.toDouble_ne_nan]
  rfl

/-! ### Reversal -/

theorem compareItems_swap {xs : List Value} (h : ∀ x ∈ xs, ∀ y, compare y x = (compare x y).swap) (ys : List Value) :
    compareItems ys xs = (compareItems xs ys).swap := by
  induction xs generalizing ys with
  | nil => cases ys <;> rfl
  | cons x xs ih =>
    cases ys with
    | nil => rfl
    | cons y ys =>
      rw [compareItems, compareItems, Ordering.swap_then, h x List.mem_cons_self,
        ih (fun v hv => h v (List.mem_cons_of_mem _ hv))]

theorem compareFields_swap {xs : List (String × Value)}
    (h : ∀ entry ∈ xs, ∀ y, compare y entry.2 = (compare entry.2 y).swap) (ys : List (String × Value)) :
    compareFields ys xs = (compareFields xs ys).swap := by
  induction xs generalizing ys with
  | nil => cases ys <;> rfl
  | cons head xs ih =>
    obtain ⟨j, x⟩ := head
    cases ys with
    | nil => rfl
    | cons head ys =>
      obtain ⟨k, y⟩ := head
      rw [compareFields, compareFields, Ordering.swap_then, Ordering.swap_then, h (j, x) List.mem_cons_self,
        ih (fun entry hentry => h entry (List.mem_cons_of_mem _ hentry)), ← Std.OrientedOrd.eq_swap]

theorem compare_swap (a b : Value) : compare b a = (compare a b).swap := by
  induction a using induction generalizing b with
  | null => cases b <;> rfl
  | bool x =>
    cases b with
    | bool y => exact Std.OrientedOrd.eq_swap
    | _ => rfl
  | num m =>
    cases b with
    | num n =>
      rw [compare, compare, compareNumbers_eq, compareNumbers_eq]
      exact Std.OrientedOrd.eq_swap
    | _ => rfl
  | str s =>
    cases b with
    | str t => exact Std.OrientedOrd.eq_swap
    | _ => rfl
  | arr xs ih =>
    cases b with
    | arr ys => exact compareItems_swap ih ys
    | _ => rfl
  | obj xs ih =>
    cases b with
    | obj ys =>
      rw [compare, compare, Ordering.swap_then, compareFields_swap ih, ← Std.OrientedOrd.eq_swap]
    | _ => rfl

/-! ### Transitivity -/

theorem Kind.rank_injective {j k : Kind} (h : j.rank = k.rank) : j = k := by
  cases j <;> cases k <;> first | rfl | cases h

/-- Values of different kinds are ordered by kind, which says nothing of values of one kind. -/
theorem compare_eq_then (a b : Value) :
    compare a b = (Ord.compare a.kind.rank b.kind.rank).then (compare a b) := by
  cases a <;> cases b <;> rfl

theorem transits_compareItems {xs : List Value}
    (h : ∀ x ∈ xs, ∀ y z, Transits (compare x y) (compare y z) (compare x z)) (ys zs : List Value) :
    Transits (compareItems xs ys) (compareItems ys zs) (compareItems xs zs) := by
  induction xs generalizing ys zs with
  | nil =>
    cases ys <;> cases zs <;> intro _ hbc <;> first | rfl | contradiction
  | cons x xs ih =>
    cases ys with
    | nil => intro hab; contradiction
    | cons y ys =>
      cases zs with
      | nil => intro _ hbc; contradiction
      | cons z zs =>
        rw [compareItems, compareItems, compareItems]
        exact (h x List.mem_cons_self y z).lex fun _ _ => ih (fun v hv => h v (List.mem_cons_of_mem _ hv)) ys zs

/-- Entries are compared only between objects of one size. -/
theorem transits_compareFields {xs : List (String × Value)}
    (h : ∀ entry ∈ xs, ∀ y z, Transits (compare entry.2 y) (compare y z) (compare entry.2 z))
    (ys zs : List (String × Value)) (hxy : xs.length = ys.length) (hyz : ys.length = zs.length) :
    Transits (compareFields xs ys) (compareFields ys zs) (compareFields xs zs) := by
  induction xs generalizing ys zs with
  | nil =>
    obtain rfl := List.length_eq_zero_iff.mp hxy.symm
    obtain rfl := List.length_eq_zero_iff.mp hyz.symm
    exact fun _ _ => rfl
  | cons head xs ih =>
    match ys, zs with
    | (k, y) :: ys, (l, z) :: zs =>
      obtain ⟨j, x⟩ := head
      rw [compareFields, compareFields, compareFields]
      refine (transits_of_transCmp Ord.compare j k l).lex fun _ _ => ?_
      refine (h (j, x) List.mem_cons_self y z).lex fun _ _ => ?_
      exact ih (fun entry hentry => h entry (List.mem_cons_of_mem _ hentry)) ys zs (Nat.succ.inj hxy)
        (Nat.succ.inj hyz)

/-- What three values of different kinds compare as depends on their kinds alone. -/
theorem transits_of_alike {a b c : Value}
    (h : a.kind = b.kind → b.kind = c.kind → Transits (compare a b) (compare b c) (compare a c)) :
    Transits (compare a b) (compare b c) (compare a c) := by
  rw [compare_eq_then a b, compare_eq_then b c, compare_eq_then a c]
  refine (transits_of_transCmp Ord.compare _ _ _).lex fun hab hbc => h ?_ ?_
  · exact Kind.rank_injective (Nat.compare_eq_eq.mp hab)
  · exact Kind.rank_injective (Nat.compare_eq_eq.mp hbc)

theorem transits_compare (a b c : Value) : Transits (compare a b) (compare b c) (compare a c) := by
  -- By induction on the first value alone: once all three are of its kind, its parts come first in every row of three.
  induction a using induction generalizing b c with
  | null =>
    refine transits_of_alike fun hab hbc => ?_
    cases b <;> cases hab
    cases c <;> cases hbc
    exact fun _ _ => rfl
  | bool x =>
    refine transits_of_alike fun hab hbc => ?_
    cases b <;> cases hab
    cases c <;> cases hbc
    exact transits_of_transCmp Ord.compare _ _ _
  | num m =>
    refine transits_of_alike fun hab hbc => ?_
    cases b <;> cases hab
    cases c <;> cases hbc
    rw [compare, compare, compare, compareNumbers_eq, compareNumbers_eq, compareNumbers_eq]
    exact transits_of_transCmp Ord.compare _ _ _
  | str s =>
    refine transits_of_alike fun hab hbc => ?_
    cases b <;> cases hab
    cases c <;> cases hbc
    exact transits_of_transCmp Ord.compare _ _ _
  | arr xs ih =>
    refine transits_of_alike fun hab hbc => ?_
    cases b <;> cases hab
    cases c <;> cases hbc
    exact transits_compareItems ih _ _
  | obj xs ih =>
    refine transits_of_alike fun hab hbc => ?_
    cases b <;> cases hab
    cases c <;> cases hbc
    rw [compare, compare, compare]
    refine (transits_of_transCmp Ord.compare _ _ _).lex fun hxy hyz => ?_
    exact transits_compareFields ih _ _ (Nat.compare_eq_eq.mp hxy) (Nat.compare_eq_eq.mp hyz)

instance : Std.OrientedCmp compare where
  eq_swap := compare_swap _ _

instance : Std.TransCmp compare where
  isLE_trans {a b c} hab hbc := by
    rw [transits_compare a b c hab hbc]
    exact Ordering.isLE_then_iff_and.mpr ⟨hab, .inr hbc⟩

/-! ### Equal values -/

theorem compareItems_of_same {xs : List Value} (h : ∀ x ∈ xs, ∀ y, x.same y → compare x y = .eq) {ys : List Value}
    (hsame : sameItems xs ys) : compareItems xs ys = .eq := by
  induction xs generalizing ys with
  | nil =>
    cases ys with
    | nil => rfl
    | cons => cases hsame
  | cons x xs ih =>
    cases ys with
    | nil => cases hsame
    | cons y ys =>
      rw [sameItems, Bool.and_eq_true] at hsame
      rw [compareItems, h x List.mem_cons_self y hsame.1]
      exact ih (fun v hv => h v (List.mem_cons_of_mem _ hv)) hsame.2

theorem compareFields_of_same {xs : List (String × Value)}
    (h : ∀ entry ∈ xs, ∀ y, entry.2.same y → compare entry.2 y = .eq) {ys : List (String × Value)}
    (hsame : sameFields xs ys) : compareFields xs ys = .eq ∧ xs.length = ys.length := by
  induction xs generalizing ys with
  | nil =>
    cases ys with
    | nil => exact ⟨rfl, rfl⟩
    | cons => cases hsame
  | cons head xs ih =>
    obtain ⟨j, x⟩ := head
    cases ys with
    | nil => cases hsame
    | cons head ys =>
      obtain ⟨k, y⟩ := head
      rw [sameFields, Bool.and_eq_true, Bool.and_eq_true, beq_iff_eq] at hsame
      obtain ⟨⟨hkey, hvalue⟩, hrest⟩ := hsame
      obtain ⟨hfields, hlength⟩ := ih (fun entry hentry => h entry (List.mem_cons_of_mem _ hentry)) hrest
      constructor
      · rw [compareFields, hkey, Std.ReflOrd.compare_self, h (j, x) List.mem_cons_self y hvalue, hfields]
        rfl
      · rw [List.length_cons, List.length_cons, hlength]

theorem compareNumbers_of_same {m n : Number} (h : m.same n) : compareNumbers m n = .eq := by
  rw [compareNumbers_eq]
  cases m with
  | int m =>
    cases n with
    | int n =>
      obtain rfl := eq_of_beq h
      exact Std.ReflOrd.compare_self
    | float => cases h
  | float x =>
    cases n with
    | int => cases h
    | float y =>
      have hscaled : x.scaled = y.scaled := eq_of_beq h
      exact Int.compare_eq_eq.mpr hscaled

/-- Equal values compare as equal. The converse fails: `1` and `1.0` differ and compare as equal. -/
theorem compare_of_same {a b : Value} (h : a.same b) : compare a b = .eq := by
  induction a using induction generalizing b with
  | null =>
    cases b with
    | null => rfl
    | _ => cases h
  | bool x =>
    cases b with
    | bool y =>
      obtain rfl : x = y := eq_of_beq h
      exact Std.ReflOrd.compare_self
    | _ => cases h
  | num m =>
    cases b with
    | num n => exact compareNumbers_of_same h
    | _ => cases h
  | str s =>
    cases b with
    | str t =>
      obtain rfl : s = t := eq_of_beq h
      exact Std.ReflOrd.compare_self
    | _ => cases h
  | arr xs ih =>
    cases b with
    | arr ys => exact compareItems_of_same (fun x hx y hy => ih x hx hy) h
    | _ => cases h
  | obj xs ih =>
    cases b with
    | obj ys =>
      obtain ⟨hfields, hlength⟩ := compareFields_of_same (fun entry hentry y hy => ih entry hentry hy) h
      rw [compare, hlength, Std.ReflOrd.compare_self]
      exact hfields
    | _ => cases h

/-! ### The laws -/

/-- Values are totally preordered: the comparison of two is determined by that of the other way round, it is
transitive, values that compare as equal compare alike with all others, and equal values compare as equal. -/
theorem compare_totalPreorder (a b c : Value) :
    compare a a = .eq ∧ compare b a = (compare a b).swap ∧
    (compare a b ≠ .gt → compare b c ≠ .gt → compare a c ≠ .gt) ∧
    (compare a b = .eq → compare a c = compare b c) ∧
    (a.same b → compare a b = .eq) := by
  refine ⟨Std.ReflCmp.compare_self, compare_swap a b, ?_, Std.TransCmp.congr_left, compare_of_same⟩
  intro hab hbc
  apply Ordering.ne_gt_iff_isLE.mpr
  exact Std.TransCmp.isLE_trans (Ordering.ne_gt_iff_isLE.mp hab) (Ordering.ne_gt_iff_isLE.mp hbc)

/-- The laws at `{"k": [1, "b"]}`, `{"k": [1.0, "b"]}` and `{"k": [1.5]}`, of which the first two compare as equal
and the third is greater, and at the first and itself. -/
theorem compare_totalPreorder_nested :
    let under (items : List Value) : Value := .obj [("k", .arr items)]
    let whole : Value := .num (.float ⟨false, Double.one, by decide +kernel⟩)
    let half : Value := .num (.float ⟨false, Double.one + Double.one / 2, by decide +kernel⟩)
    let a := under [.int 1, .str "b"]
    let b := under [whole, .str "b"]
    let c := under [half]
    compare a b = .eq ∧ compare b c = .lt ∧ compare a c ≠ .gt ∧ compare a c = compare b c ∧
      a.same a ∧ compare a a = .eq := by
  intro under whole half a b c
  have hab : compare a b = .eq := by decide +kernel
  have hbc : compare b c = .lt := by decide +kernel
  obtain ⟨-, -, htrans, hcongr, -⟩ := compare_totalPreorder a b c
  obtain ⟨-, -, -, -, hsame⟩ := compare_totalPreorder a a c
  have haa : a.same a := by decide +kernel
  refine ⟨hab, hbc, htrans ?_ ?_, hcongr hab, haa, hsame haa⟩
  · rw [hab]
    exact nofun
  · rw [hbc]
    exact nofun

end Value

end Pipewright
