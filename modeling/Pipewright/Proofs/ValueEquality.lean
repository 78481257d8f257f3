import Pipewright.Proofs.ValueInduction

/-!
# Equality of values is an equivalence

Equal values need not be the same: the two zeros among the doubles are equal and have different signs. That is the only
difference. Values are equal if and only if they become the same once each zero has lost its sign, and so equality is an
equivalence.
-/
namespace Pipewright

namespace FiniteDouble

variable {x y : FiniteDouble}

/-- The double without the sign that a zero may have. -/
def unsignZero (x : FiniteDouble) : FiniteDouble := if x.units = 0 then zero false else x

theorem scaled_unsignZero (x : FiniteDouble) : x.unsignZero.scaled = x.scaled := by
  unfold unsignZero
  split
  next h => simp [scaled, zero, h]
  next => rfl

theorem scaled_eq_zero_iff : x.scaled = 0 ↔ x.units = 0 := by
  unfold scaled
  split <;> omega

/-- Apart from zero, a number of units has one sign. -/
theorem eq_of_scaled_eq (h : x.scaled = y.scaled) (hx : x.units ≠ 0) : x = y := by
  obtain ⟨negative, units, _⟩ := x
  obtain ⟨negative', units', _⟩ := y
  obtain ⟨rfl, rfl⟩ : negative = negative' ∧ units = units' := by
    cases negative <;> cases negative' <;> simp [scaled] at h hx ⊢ <;> omega
  rfl

theorem same_iff : x.same y ↔ x.unsignZero = y.unsignZero := by
  constructor
  · intro h
    have hscaled : x.scaled = y.scaled := eq_of_beq h
    have hzero : x.units = 0 ↔ y.units = 0 := by rw [← scaled_eq_zero_iff, ← scaled_eq_zero_iff, hscaled]
    unfold unsignZero
    by_cases hx : x.units = 0
    · rw [if_pos hx, if_pos (hzero.mp hx)]
    · rw [if_neg hx, if_neg (mt hzero.mpr hx)]
      exact eq_of_scaled_eq hscaled hx
  · intro h
    have hscaled := congrArg scaled h
    rw [scaled_unsignZero, scaled_unsignZero] at hscaled
    exact beq_iff_eq.mpr hscaled

end FiniteDouble

namespace Number

def unsignZero : Number → Number
  | .int n => .int n
  | .float x => .float x.unsignZero

theorem same_iff {m n : Number} : m.same n ↔ m.unsignZero = n.unsignZero := by
  cases m with
  | int m =>
    cases n with
    | int n => exact beq_iff_eq.trans (Number.int.injEq m n).to_iff.symm
    | float y => exact iff_of_false nofun nofun
  | float x =>
    cases n with
    | int n => exact iff_of_false nofun nofun
    | float y => exact FiniteDouble.same_iff.trans (Number.float.injEq _ _).to_iff.symm

end Number

namespace Value

/-- The value with no sign at any zero in it. -/
def unsignZero : Value → Value :=
  fold (fun | .num n => .num n.unsignZero | v => v) arr obj

theorem unsignZero_arr (items : List Value) : (arr items).unsignZero = arr (items.map unsignZero) := by
  rw [unsignZero, fold, foldItems_eq_map]

theorem unsignZero_obj (fields : Fields Value) :
    (obj fields).unsignZero = obj (fields.map fun entry => (entry.1, entry.2.unsignZero)) := by
  rw [unsignZero, fold, foldFields_eq_map]

theorem sameItems_iff {xs : List Value} (h : ∀ x ∈ xs, ∀ y, x.same y ↔ x.unsignZero = y.unsignZero) (ys : List Value) :
    sameItems xs ys ↔ xs.map unsignZero = ys.map unsignZero := by
  induction xs generalizing ys with
  | nil => cases ys <;> simp [sameItems]
  | cons x xs ih =>
    cases ys with
    | nil => exact iff_of_false nofun nofun
    | cons y ys =>
      rw [sameItems, Bool.and_eq_true, h x List.mem_cons_self, ih fun v hv => h v (List.mem_cons_of_mem _ hv),
        List.map_cons, List.map_cons, List.cons.injEq]

theorem sameFields_iff {xs : Fields Value}
    (h : ∀ entry ∈ xs, ∀ y, entry.2.same y ↔ entry.2.unsignZero = y.unsignZero) (ys : Fields Value) :
    sameFields xs ys ↔
      (xs.map fun entry => (entry.1, entry.2.unsignZero)) = ys.map fun entry => (entry.1, entry.2.unsignZero) := by
  induction xs generalizing ys with
  | nil => cases ys <;> simp [sameFields]
  | cons head xs ih =>
    obtain ⟨j, x⟩ := head
    cases ys with
    | nil => exact iff_of_false nofun nofun
    | cons head ys =>
      obtain ⟨k, y⟩ := head
      rw [sameFields, Bool.and_eq_true, Bool.and_eq_true, beq_iff_eq, h (j, x) List.mem_cons_self,
        ih fun entry hentry => h entry (List.mem_cons_of_mem _ hentry), List.map_cons, List.map_cons, List.cons.injEq,
        Prod.mk.injEq]

/-- Equal values are the same but for the signs of zeros. -/
theorem same_iff {a b : Value} : a.same b ↔ a.unsignZero = b.unsignZero := by
  induction a using induction generalizing b with
  | null =>
    cases b with
    | null => exact iff_of_true rfl rfl
    | _ => exact iff_of_false nofun nofun
  | bool x =>
    cases b with
    | bool y => exact beq_iff_eq.trans (Value.bool.injEq x y).to_iff.symm
    | _ => exact iff_of_false nofun nofun
  | num m =>
    cases b with
    | num n => exact Number.same_iff.trans (Value.num.injEq _ _).to_iff.symm
    | _ => exact iff_of_false nofun nofun
  | str s =>
    cases b with
    | str t => exact beq_iff_eq.trans (Value.str.injEq s t).to_iff.symm
    | _ => exact iff_of_false nofun nofun
  | arr xs ih =>
    cases b with
    | arr ys =>
      rw [same, sameItems_iff (fun x hx y => ih x hx), unsignZero_arr, unsignZero_arr, Value.arr.injEq]
    | _ => exact iff_of_false nofun nofun
  | obj xs ih =>
    cases b with
    | obj ys =>
      rw [same, sameFields_iff (fun entry hentry y => ih entry hentry), unsignZero_obj, unsignZero_obj, Value.obj.injEq]
    | _ => exact iff_of_false nofun nofun

theorem same_self (a : Value) : a.same a := same_iff.mpr rfl

theorem same_trans {a b c : Value} (hab : a.same b) (hbc : b.same c) : a.same c :=
  same_iff.mpr ((same_iff.mp hab).trans (same_iff.mp hbc))

theorem same_symm {a b : Value} (h : a.same b) : b.same a := same_iff.mpr (same_iff.mp h).symm

end Value

end Pipewright
