import Pipewright.Proofs.ExactSum

/-!
# Slices in 64-bit arithmetic

Where a slice begins and ends is a matter of exact integers. 64-bit ones come to the same bounds: a negative parameter
is added to the item count, which cannot overflow, and the one sum that could is cut to the range before the item count
bounds it, which makes no difference. The bounds are in order and within the items, so that the slice can be read off,
and a slice up to some place and the slice from there make up all items.
-/
namespace Pipewright

namespace Text

variable {n : Int}

theorem fitsInt64_clampInt64 (n : Int) : fitsInt64 (clampInt64 n) := by
  rw [fitsInt64_iff]
  unfold clampInt64
  omega

theorem clampInt64_of_fits (h : fitsInt64 n) : clampInt64 n = n := by
  rw [fitsInt64_iff] at h
  unfold clampInt64
  omega

end Text

namespace Transforms

variable {params : Params} {items kept : List Value} {count offset start stop n : Int} {length : Option Int}

/-! ### Integers given as parameters -/

theorem fitsInt64_of_parameterInteger? {v : Value} (h : parameterInteger? v = some n) : Text.fitsInt64 n := by
  unfold parameterInteger? at h
  split at h
  next m =>
    obtain rfl := Option.some.inj h
    exact Text.fitsInt64_clampInt64 m
  next x =>
    obtain ⟨-, hn⟩ := Option.ite_none_right_eq_some.mp h
    obtain rfl := Option.some.inj hn
    exact Text.fitsInt64_clampInt64 x.truncate
  next s => exact (Option.filter_eq_some_iff.mp h).2
  next => cases h

/-- Only 64-bit integers are given as parameters. -/
theorem fitsInt64_of_intParam {name : String} (h : intParam params name = .ok (some n)) : Text.fitsInt64 n := by
  unfold intParam at h
  split at h
  · cases h
  · cases h
  next v _ _ =>
    cases hv : parameterInteger? v with
    | none =>
      rw [hv] at h
      cases h
    | some m =>
      rw [hv] at h
      obtain rfl := Option.some.inj (Except.ok.inj h)
      exact fitsInt64_of_parameterInteger? hv

/-- Every 64-bit integer can be given as a parameter. -/
theorem intParam_of_fits {name : String} (hn : Text.fitsInt64 n)
    (h : Fields.get? name params = some (.num (.int n))) : intParam params name = .ok (some n) := by
  unfold intParam
  rw [h]
  change Except.ok (some (Text.clampInt64 n)) = _
  rw [Text.clampInt64_of_fits hn]

/-! ### The bounds -/

/-- Where the slice of so many items begins and ends, in exact integers. What counts from the end is cut off at the
first item, or where the slice begins; what counts from the front, at the last item. -/
structure AreBounds (count offset : Int) (length : Option Int) (start stop : Int) : Prop where
  from_end : offset < 0 → start = max (count + offset) 0
  from_start : 0 ≤ offset → start = min offset count
  to_end : length = none → stop = count
  short_of_end : ∀ n, length = some n → n < 0 → stop = max (count + n) start
  as_long : ∀ n, length = some n → 0 ≤ n → stop = min (start + n) count

theorem areBounds_sliceBounds (count offset : Int) (length : Option Int) :
    AreBounds count offset length (sliceBounds count offset length).1 (sliceBounds count offset length).2 where
  from_end h := if_pos h
  from_start h := if_neg (Int.not_lt.mpr h)
  to_end h := by
    subst h
    rfl
  short_of_end n hn h := by
    subst hn
    exact if_pos h
  as_long n hn h := by
    subst hn
    exact if_neg (Int.not_lt.mpr h)

/-- The slice begins within the items. -/
theorem AreBounds.start_mem (h : AreBounds count offset length start stop) (hcount : 0 ≤ count) :
    0 ≤ start ∧ start ≤ count := by
  by_cases hoffset : offset < 0
  · have hstart := h.from_end hoffset
    omega
  · have hstart := h.from_start (Int.not_lt.mp hoffset)
    omega

/-- The slice ends where it begins or after that, and within the items. -/
theorem AreBounds.stop_mem (h : AreBounds count offset length start stop) (hcount : 0 ≤ count) :
    start ≤ stop ∧ stop ≤ count := by
  obtain ⟨hstart, hle⟩ := h.start_mem hcount
  cases hlength : length with
  | none =>
    have hstop := h.to_end hlength
    omega
  | some n =>
    by_cases hn : n < 0
    · have hstop := h.short_of_end n hlength hn
      omega
    · have hstop := h.as_long n hlength (Int.not_lt.mp hn)
      omega

/-! ### The bounds in 64 bits -/

/-- The sum of two integers, unless it overflows. -/
def add64? (a b : Int) : Option Int := if Text.fitsInt64 (a + b) then some (a + b) else none

/-- The sum of two integers, cut to the range. -/
def addSaturating64 (a b : Int) : Int := Text.clampInt64 (a + b)

/-- Where a slice begins, in 64-bit integers: nothing if the sum overflows. -/
def sliceStart64? (count offset : Int) : Option Int :=
  if offset < 0 then (add64? count offset).map (max · 0) else some (min offset count)

/-- Where a slice ends, in 64-bit integers: nothing if the sum overflows, unless it is the one that is cut to the
range. -/
def sliceStop64? (count start : Int) : Option Int → Option Int
  | none => some count
  | some length =>
    if length < 0 then (add64? count length).map (max · start)
    else some (min (addSaturating64 start length) count)

/-- A negative integer is added to the item count without overflow. -/
theorem add64?_of_neg (hcount : 0 ≤ count) (hfits : Text.fitsInt64 count) (hn : Text.fitsInt64 n) (hneg : n < 0) :
    add64? count n = some (count + n) := by
  rw [Text.fitsInt64_iff] at hfits hn
  have hsum : Text.fitsInt64 (count + n) := by
    rw [Text.fitsInt64_iff]
    omega
  exact if_pos hsum

/-- A sum that is cut to the range is bounded by the item count as the exact one is. -/
theorem min_addSaturating64 (hfits : Text.fitsInt64 count) (hstart : 0 ≤ start) (hn : 0 ≤ n) :
    min (addSaturating64 start n) count = min (start + n) count := by
  rw [Text.fitsInt64_iff] at hfits
  unfold addSaturating64 Text.clampInt64
  omega

theorem AreBounds.start64? (h : AreBounds count offset length start stop) (hcount : 0 ≤ count)
    (hfits : Text.fitsInt64 count) (hoffset : Text.fitsInt64 offset) : sliceStart64? count offset = some start := by
  unfold sliceStart64?
  by_cases hneg : offset < 0
  · rw [if_pos hneg, add64?_of_neg hcount hfits hoffset hneg, h.from_end hneg]
    rfl
  · rw [if_neg hneg, h.from_start (Int.not_lt.mp hneg)]

theorem AreBounds.stop64? (h : AreBounds count offset length start stop) (hcount : 0 ≤ count)
    (hfits : Text.fitsInt64 count) (hlength : ∀ n, length = some n → Text.fitsInt64 n) :
    sliceStop64? count start length = some stop := by
  cases hn : length with
  | none =>
    rw [h.to_end hn]
    rfl
  | some n =>
    rw [sliceStop64?]
    by_cases hneg : n < 0
    · rw [if_pos hneg, add64?_of_neg hcount hfits (hlength n hn) hneg, h.short_of_end n hn hneg]
      rfl
    · have hnonneg := Int.not_lt.mp hneg
      rw [if_neg hneg, min_addSaturating64 hfits (h.start_mem hcount).1 hnonneg, h.as_long n hn hnonneg]

/-! ### Reading the slice off -/

/-- `kept` are the items from `start` to before `stop`. -/
def IsRange (items : List Value) (start stop : Int) (kept : List Value) : Prop :=
  ∃ before after : List Value,
    items = before ++ kept ++ after ∧ start = before.length ∧ stop = (before ++ kept).length

/-- The items from `start` to before `stop`, unless these are out of order or not within the items. -/
def range? (items : List Value) (start stop : Int) : Option (List Value) :=
  if 0 ≤ start ∧ start ≤ stop ∧ stop ≤ items.length then some ((items.take stop.toNat).drop start.toNat) else none

/-- The slice of the items, in 64-bit integers: nothing if a sum overflows or the bounds are not within the items. -/
def slice64? (items : List Value) (offset : Int) (length : Option Int) : Option (List Value) := do
  let start ← sliceStart64? items.length offset
  let stop ← sliceStop64? items.length start length
  range? items start stop

theorem isRange_take_drop (hstart : 0 ≤ start) (horder : start ≤ stop) (hstop : stop ≤ items.length) :
    IsRange items start stop ((items.take stop.toNat).drop start.toNat) := by
  have hfront : items.take start.toNat ++ (items.take stop.toNat).drop start.toNat = items.take stop.toNat := by
    have hle : start.toNat ≤ stop.toNat := Int.toNat_le_toNat horder
    conv_rhs => rw [← List.take_append_drop start.toNat (items.take stop.toNat)]
    rw [List.take_take, Nat.min_eq_left hle]
  refine ⟨items.take start.toNat, items.drop stop.toNat, ?_, ?_, ?_⟩
  · rw [hfront, List.take_append_drop]
  · rw [List.length_take]
    omega
  · rw [hfront, List.length_take]
    omega

/-- A range up to some place and the range from there are all items. -/
theorem IsRange.append {front back : List Value} {middle : Int} (hfront : IsRange items 0 middle front)
    (hback : IsRange items middle items.length back) : front ++ back = items := by
  obtain ⟨before, after, heq, hstart, hmiddle⟩ := hfront
  obtain ⟨before', after', heq', hmiddle', hstop⟩ := hback
  obtain rfl : before = [] := List.eq_nil_of_length_eq_zero (by omega)
  obtain rfl : after' = [] := by
    have hcount := congrArg List.length heq'
    rw [List.length_append] at hcount
    exact List.eq_nil_of_length_eq_zero (by omega)
  rw [List.nil_append] at heq hmiddle
  rw [List.append_nil] at heq'
  -- Both split the items at the same place.
  have hsplit : front ++ after = before' ++ back := heq.symm.trans heq'
  obtain ⟨rfl, -⟩ := List.append_inj hsplit (by omega)
  exact heq'.symm

theorem IsRange.range? (h : IsRange items start stop kept) : range? items start stop = some kept := by
  obtain ⟨before, after, rfl, rfl, rfl⟩ := h
  unfold Transforms.range?
  rw [if_pos, Int.toNat_natCast, Int.toNat_natCast, List.take_left, List.drop_left]
  simp only [List.length_append]
  omega

/-- What is asked of a slice: it is what lies between its bounds, which are in order and within the items. -/
structure IsSlice (items : List Value) (offset : Int) (length : Option Int) (start stop : Int) (kept : List Value) :
    Prop where
  bounds : AreBounds items.length offset length start stop
  nonneg : 0 ≤ start
  ordered : start ≤ stop
  within : stop ≤ items.length
  range : IsRange items start stop kept

/-- Neither does a sum overflow nor is anything read that is not there. -/
theorem IsSlice.slice64? (h : IsSlice items offset length start stop kept) (hfits : Text.fitsInt64 items.length)
    (hoffset : Text.fitsInt64 offset) (hlength : ∀ n, length = some n → Text.fitsInt64 n) :
    slice64? items offset length = some kept := by
  have hcount : 0 ≤ (items.length : Int) := Int.natCast_nonneg _
  unfold Transforms.slice64?
  rw [h.bounds.start64? hcount hfits hoffset]
  change (sliceStop64? items.length start length >>= _) = _
  rw [h.bounds.stop64? hcount hfits hlength]
  exact h.range.range?

/-- Up to some place, which may be given from the end, and from there on. -/
theorem IsSlice.append {front back : List Value} {start' stop' : Int}
    (hfront : IsSlice items 0 (some n) start stop front) (hback : IsSlice items n none start' stop' back) :
    front ++ back = items := by
  have hzero : start = 0 := by
    have hstart := hfront.bounds.from_start (Int.le_refl 0)
    omega
  have hmiddle : stop = start' := by
    by_cases hn : n < 0
    · rw [hfront.bounds.short_of_end n rfl hn, hback.bounds.from_end hn, hzero]
    · have hnonneg := Int.not_lt.mp hn
      rw [hfront.bounds.as_long n rfl hnonneg, hback.bounds.from_start hnonneg, hzero, Int.zero_add]
  have hend : stop' = items.length := hback.bounds.to_end rfl
  subst hzero hmiddle hend
  exact hfront.range.append hback.range

/-! ### The transform -/

theorem apply_slice (params : Params) {offset : Option Int} (hoffset : intParam params "offset" = .ok offset)
    (hlength : intParam params "length" = .ok length) (items : List Value) :
    ∃ start stop kept, Transform.slice.apply params (.arr items) = .ok (.arr kept) ∧
      IsSlice items (offset.getD 0) length start stop kept := by
  have hbounds := areBounds_sliceBounds items.length (offset.getD 0) length
  obtain ⟨hstart, -⟩ := hbounds.start_mem (Int.natCast_nonneg _)
  obtain ⟨horder, hstop⟩ := hbounds.stop_mem (Int.natCast_nonneg _)
  refine ⟨_, _, _, ?_, hbounds, hstart, horder, hstop, isRange_take_drop hstart horder hstop⟩
  change (slice params items >>= fun kept => .ok (Value.arr kept)) = _
  unfold slice
  rw [hoffset, hlength]
  rfl

/-- A slice of any items by any integers is what exact arithmetic gives. If the item count is a 64-bit integer, 64-bit
arithmetic gives it as well: no sum overflows, and nothing is read that is not there. The items up to `k` and those from
`k` on make up all items, also where `k` counts from the end. -/
theorem slice_exact (params : Params) (items : List Value) {offset length : Option Int}
    (hoffset : intParam params "offset" = .ok offset) (hlength : intParam params "length" = .ok length) :
    (∃ start stop kept, Transform.slice.apply params (.arr items) = .ok (.arr kept) ∧
      IsSlice items (offset.getD 0) length start stop kept ∧
      (Text.fitsInt64 items.length → slice64? items (offset.getD 0) length = some kept)) ∧
    ∀ k : Int, Text.fitsInt64 k → ∃ front back,
      Transform.slice.apply [("length", .int k), ("offset", .int 0)] (.arr items) = .ok (.arr front) ∧
      Transform.slice.apply [("offset", .int k)] (.arr items) = .ok (.arr back) ∧
      front ++ back = items := by
  constructor
  · obtain ⟨start, stop, kept, happly, hslice⟩ := apply_slice params hoffset hlength items
    refine ⟨start, stop, kept, happly, hslice, fun hfits => hslice.slice64? hfits ?_ ?_⟩
    · cases offset with
      | none => rfl
      | some n => exact fitsInt64_of_intParam hoffset
    · rintro n rfl
      exact fitsInt64_of_intParam hlength
  · intro k hk
    obtain ⟨_, _, front, hfront, hsliceFront⟩ :=
      apply_slice [("length", .int k), ("offset", .int 0)] rfl (intParam_of_fits hk rfl) items
    obtain ⟨_, _, back, hback, hsliceBack⟩ :=
      apply_slice [("offset", .int k)] (intParam_of_fits hk rfl) rfl items
    exact ⟨front, back, hfront, hback, hsliceFront.append hsliceBack⟩

/-- The greatest length from the second item on, where the plain sum would overflow, and the least offset. -/
theorem slice_exact_widest :
    (∃ kept, Transform.slice.apply [("length", .int 9223372036854775807), ("offset", .int 1)]
        (.arr [.str "a", .str "b"]) = .ok (.arr kept) ∧
      slice64? [.str "a", .str "b"] 1 (some 9223372036854775807) = some kept ∧ kept = [.str "b"]) ∧
    ∃ front back,
      Transform.slice.apply [("length", .int (-9223372036854775808)), ("offset", .int 0)]
        (.arr [.str "a", .str "b"]) = .ok (.arr front) ∧
      Transform.slice.apply [("offset", .int (-9223372036854775808))] (.arr [.str "a", .str "b"]) = .ok (.arr back) ∧
      front ++ back = [.str "a", .str "b"] := by
  obtain ⟨⟨_, _, kept, happly, -, h64⟩, happend⟩ :=
    slice_exact [("length", .int 9223372036854775807), ("offset", .int 1)] [.str "a", .str "b"] rfl rfl
  have hkept : kept = [.str "b"] := by
    cases happly
    rfl
  exact ⟨⟨kept, happly, h64 rfl, hkept⟩, happend (-9223372036854775808) rfl⟩

end Transforms

end Pipewright
