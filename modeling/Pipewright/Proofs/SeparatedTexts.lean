import Mathlib.Data.List.Infix
import Pipewright.Transforms.Catalog

/-!
# Splitting and joining

A text that is cut at a separator, as often as it occurs or only so many times, is what its parts make with the
separator between them. Where the number of cuts is not bounded no separator is left in a part, and where it is, the
first parts are the same and the last one is the rest. Texts without a character are found again once that character
joins them.
-/
namespace Pipewright

namespace Text

variable {sep cs : List Char} {cuts : Option Nat} {skip : Nat} {c : Char} {parts : List (List Char)}

/-! ### The parts of a text -/

theorem splitFrom_of_begins (hcuts : cuts ≠ some 0) (h : sep <+: c :: cs) :
    splitFrom sep cuts 0 (c :: cs) = [] :: splitFrom sep (cuts.map (· - 1)) (sep.length - 1) cs :=
  if_pos (Bool.and_eq_true_iff.mpr ⟨bne_iff_ne.mpr hcuts, List.isPrefixOf_iff_prefix.mpr h⟩)

theorem splitFrom_of_not_begins (h : ¬ sep <+: c :: cs) :
    splitFrom sep cuts 0 (c :: cs) = consHead c (splitFrom sep cuts 0 cs) :=
  if_neg fun hboth => h (List.isPrefixOf_iff_prefix.mp (Bool.and_eq_true_iff.mp hboth).2)

theorem consHead_ne_nil (c : Char) (parts : List (List Char)) : consHead c parts ≠ [] := by
  cases parts <;> exact List.cons_ne_nil _ _

theorem splitFrom_ne_nil (sep : List Char) (cuts : Option Nat) (skip : Nat) (cs : List Char) :
    splitFrom sep cuts skip cs ≠ [] := by
  induction cuts, skip, cs using splitFrom.induct sep with
  | case1 => exact List.cons_ne_nil _ _
  | case2 cuts skip c cs ih => exact ih
  | case3 cuts c cs h ih =>
    rw [splitFrom, if_pos h]
    exact List.cons_ne_nil _ _
  | case4 cuts c cs h ih =>
    rw [splitFrom, if_neg h]
    exact consHead_ne_nil _ _

theorem intercalate_consHead (c : Char) (h : parts ≠ []) :
    sep.intercalate (consHead c parts) = c :: sep.intercalate parts := by
  match parts with
  | [part] => rw [consHead, List.intercalate_singleton, List.intercalate_singleton]
  | part :: next :: rest => rw [consHead, List.intercalate_cons_cons, List.intercalate_cons_cons]; rfl

theorem intercalate_nil_cons (h : parts ≠ []) : sep.intercalate ([] :: parts) = sep ++ sep.intercalate parts := by
  match parts with
  | part :: rest => rw [List.intercalate_cons_cons, List.nil_append]

/-- The parts make up the text. -/
theorem intercalate_splitFrom (hsep : sep ≠ []) (cuts : Option Nat) (skip : Nat) (cs : List Char) :
    sep.intercalate (splitFrom sep cuts skip cs) = cs.drop skip := by
  induction cuts, skip, cs using splitFrom.induct sep with
  | case1 => rw [splitFrom, List.intercalate_singleton, List.drop_nil]
  | case2 cuts skip c cs ih => exact ih
  | case3 cuts c cs h ih =>
    have hfront : sep <+: c :: cs := List.isPrefixOf_iff_prefix.mp (Bool.and_eq_true_iff.mp h).2
    -- The character at hand is the first of the separator, and the others are passed over.
    have hlength : (sep.length - 1) + 1 = sep.length := Nat.sub_add_cancel (List.length_pos_iff.mpr hsep)
    rw [splitFrom, if_pos h, intercalate_nil_cons (splitFrom_ne_nil _ _ _ _), ih, ← List.drop_succ_cons (a := c),
      hlength]
    exact List.prefix_iff_eq_append.mp hfront
  | case4 cuts c cs h ih =>
    rw [splitFrom, if_neg h, intercalate_consHead c (splitFrom_ne_nil _ _ _ _), ih, List.drop_zero, List.drop_zero]

/-- The first part is how the text begins. -/
theorem isPrefix_of_splitFrom {part : List Char} (hsep : sep ≠ []) (h : splitFrom sep cuts skip cs = part :: parts) :
    part <+: cs.drop skip := by
  rw [← intercalate_splitFrom hsep cuts skip cs, h]
  cases parts with
  | nil => rw [List.intercalate_singleton]
  | cons next rest =>
    rw [List.intercalate_cons_cons, List.append_assoc]
    exact List.prefix_append _ _

/-- A character in front of a part makes no separator if there is none in the text where it stands. -/
theorem not_infix_cons {part : List Char} (hmiss : ¬ sep <+: c :: cs) (hfront : part <+: cs)
    (hpart : ¬ sep <:+: part) : ¬ sep <:+: c :: part := by
  intro hinfix
  rcases List.infix_cons_iff.mp hinfix with hhere | hlater
  · exact hmiss (hhere.trans (List.cons_prefix_cons.mpr ⟨rfl, hfront⟩))
  · exact hpart hlater

/-- By induction on the text: a separator in a part would have been found where it begins. -/
theorem not_infix_of_mem_splitFrom (hsep : sep ≠ []) (skip : Nat) (cs : List Char) :
    ∀ part ∈ splitFrom sep none skip cs, ¬ sep <:+: part := by
  have hnil : ¬ sep <:+: [] := mt List.infix_nil.mp hsep
  induction cs generalizing skip with
  | nil => exact List.forall_mem_singleton.mpr hnil
  | cons c cs ih =>
    match skip with
    | skip + 1 => exact ih skip
    | 0 =>
      by_cases h : sep <+: c :: cs
      · rw [splitFrom_of_begins (by simp) h]
        exact List.forall_mem_cons.mpr ⟨hnil, ih _⟩
      · rw [splitFrom_of_not_begins h]
        obtain ⟨part, parts, hparts⟩ := List.exists_cons_of_ne_nil (splitFrom_ne_nil sep none 0 cs)
        have hrest := ih 0
        rw [hparts] at hrest ⊢
        obtain ⟨hpart, hparts'⟩ := List.forall_mem_cons.mp hrest
        exact List.forall_mem_cons.mpr ⟨not_infix_cons h (isPrefix_of_splitFrom hsep hparts) hpart, hparts'⟩

/-! ### A bound on the parts -/

/-- All parts if they are fewer than `n`, or else the first ones and in place of the others what they make up. -/
def capped {α : Type} (join : List α → α) (n : Nat) (parts : List α) : List α :=
  if parts.length < n then parts else parts.take (n - 1) ++ [join (parts.drop (n - 1))]

section

variable {α β : Type} {join : List α → α} {n : Nat}

theorem length_capped_le (hn : 0 < n) (parts : List α) : (capped join n parts).length ≤ n := by
  unfold capped
  split
  · omega
  · rw [List.length_append, List.length_take, List.length_singleton]
    omega

theorem capped_one {parts : List α} (h : parts ≠ []) : capped join 1 parts = [join parts] := by
  have hlength := List.length_pos_iff.mpr h
  rw [capped, if_neg (by omega)]
  rfl

theorem capped_cons (part : α) (parts : List α) :
    capped join (n + 2) (part :: parts) = part :: capped join (n + 1) parts := by
  unfold capped
  rw [List.length_cons]
  by_cases h : parts.length < n + 1
  · rw [if_pos h, if_pos (by omega)]
  · rw [if_neg h, if_neg (by omega)]
    rfl

theorem map_capped {f : α → β} {joined : List β → β} (h : ∀ parts, f (join parts) = joined (parts.map f)) (n : Nat)
    (parts : List α) : (capped join n parts).map f = capped joined n (parts.map f) := by
  unfold capped
  rw [List.length_map]
  split
  · rfl
  · rw [List.map_append, List.map_take, List.map_singleton, h, List.map_drop]

end

theorem consHead_capped (c : Char) (n : Nat) (h : parts ≠ []) :
    consHead c (capped sep.intercalate (n + 2) parts) = capped sep.intercalate (n + 2) (consHead c parts) := by
  match parts with
  | part :: rest => rw [capped_cons, consHead, consHead, capped_cons]

theorem splitFrom_uncut (sep : List Char) (skip : Nat) (cs : List Char) :
    splitFrom sep (some 0) skip cs = [cs.drop skip] := by
  induction cs generalizing skip with
  | nil => rw [splitFrom, List.drop_nil]
  | cons c cs ih =>
    match skip with
    | skip + 1 => exact ih skip
    | 0 =>
      rw [splitFrom, if_neg (by simp), ih 0]
      rfl

theorem splitFrom_zero (hsep : sep ≠ []) (skip : Nat) (cs : List Char) :
    splitFrom sep (some 0) skip cs = capped sep.intercalate 1 (splitFrom sep none skip cs) := by
  rw [splitFrom_uncut, capped_one (splitFrom_ne_nil _ _ _ _), intercalate_splitFrom hsep]

/-- A bound on the cuts leaves the rest of the text together. -/
theorem splitFrom_some (hsep : sep ≠ []) (cuts skip : Nat) (cs : List Char) :
    splitFrom sep (some cuts) skip cs = capped sep.intercalate (cuts + 1) (splitFrom sep none skip cs) := by
  induction cs generalizing cuts skip with
  | nil =>
    match cuts with
    | 0 => exact splitFrom_zero hsep skip []
    | cuts + 1 =>
      rw [splitFrom, splitFrom, capped, if_pos]
      exact Nat.succ_lt_succ (Nat.succ_pos cuts)
  | cons c cs ih =>
    match cuts, skip with
    | 0, skip => exact splitFrom_zero hsep skip (c :: cs)
    | cuts + 1, skip + 1 => exact ih (cuts + 1) skip
    | cuts + 1, 0 =>
      by_cases h : sep <+: c :: cs
      · rw [splitFrom_of_begins (by simp) h, splitFrom_of_begins (by simp) h, capped_cons]
        exact congrArg ([] :: ·) (ih cuts (sep.length - 1))
      · rw [splitFrom_of_not_begins h, splitFrom_of_not_begins h, ih, consHead_capped c cuts (splitFrom_ne_nil _ _ _ _)]

/-! ### One character -/

theorem consHead_eq_modifyHead (c : Char) (h : parts ≠ []) : consHead c parts = parts.modifyHead (c :: ·) := by
  cases parts with
  | nil => exact absurd rfl h
  | cons part rest => rfl

theorem split_singleton (c : Char) (cs : List Char) : split [c] cs = cs.splitOn c := by
  unfold split
  rw [List.splitOn_eq_splitOnP]
  induction cs with
  | nil => rw [List.splitOnP_nil, splitFrom]
  | cons d cs ih =>
    rw [List.splitOnP_cons_eq_if_modifyHead, ← ih]
    by_cases h : d = c
    · subst h
      have hfront : [d] <+: d :: cs := List.prefix_append [d] cs
      rw [splitFrom_of_begins (by simp) hfront, if_pos (beq_self_eq_true d)]
      rfl
    · have hfront : ¬ [c] <+: d :: cs := fun hfront => h (List.cons_prefix_cons.mp hfront).1.symm
      rw [splitFrom_of_not_begins hfront, if_neg (by simpa using h),
        consHead_eq_modifyHead d (splitFrom_ne_nil _ _ _ _)]

theorem split_intercalate {c : Char} (hparts : parts ≠ []) (h : ∀ part ∈ parts, c ∉ part) :
    split [c] ([c].intercalate parts) = parts := by
  rw [split_singleton]
  exact List.splitOn_intercalate c h hparts

/-! ### Words and their characters -/

theorem map_toList_ofList (words : List (List Char)) : (words.map String.ofList).map String.toList = words := by
  rw [List.map_map]
  exact (List.map_congr_left fun word _ => String.toList_ofList).trans (List.map_id words)

theorem map_ofList_toList (words : List String) : (words.map String.toList).map String.ofList = words := by
  rw [List.map_map]
  exact (List.map_congr_left fun word _ => String.ofList_toList).trans (List.map_id words)

end Text

namespace Transforms

variable {params : Params} {sep text : String} {cap : Option Nat}

/-! ### What parameters ask for -/

/-- The separator at which parameters split: a comma, unless they give another. -/
def SplitAt (params : Params) (sep : String) : Prop := (textParam params "separator").getD "," = sep

/-- The separator with which parameters join: a comma and a blank, unless they give another. -/
def JoinWith (params : Params) (sep : String) : Prop := (textParam params "separator").getD ", " = sep

/-- The number of parts that parameters bound a split to, if they do: a limit that is not positive does not. -/
inductive CapAt (params : Params) : Option Nat → Prop
  | unlimited (h : intParam params "limit" = .ok none) : CapAt params none
  | notPositive {n : Int} (h : intParam params "limit" = .ok (some n)) (hn : n ≤ 0) : CapAt params none
  | limited {n : Nat} (h : intParam params "limit" = .ok (some n)) (hn : 0 < n) : CapAt params (some n)

/-- The parts of a text, at most as many as a cap says. -/
def partsOf (sep : String) (cap : Option Nat) (text : String) : List String :=
  (Text.splitFrom sep.toList (cap.map (· - 1)) 0 text.toList).map String.ofList

theorem apply_split (hsep : SplitAt params sep) (hne : sep ≠ "") (hcap : CapAt params cap) (text : String) :
    Transform.split.apply params (.str text) = .ok (.arr ((partsOf sep cap text).map .str)) := by
  have hsplit : split params text.toList = .ok ((partsOf sep cap text).map .str) := by
    have hchars : ¬ sep.toList.isEmpty := by simpa using hne
    rw [split, hsep, partsOf, List.map_map]
    dsimp only
    rw [if_neg hchars]
    cases hcap with
    | unlimited h =>
      rw [h]
      rfl
    | notPositive h hn =>
      rw [h]
      change Except.ok (List.map _ (if _ then _ else _)) = _
      rw [if_neg (by omega)]
      rfl
    | limited h hn =>
      rw [h]
      change Except.ok (List.map _ (if _ then _ else _)) = _
      rw [if_pos (by omega)]
      rfl
  change (split params text.toList >>= fun parts => pure (Value.arr parts)) = _
  rw [hsplit]
  rfl

theorem apply_join (hsep : JoinWith params sep) (parts : List String) :
    Transform.join.apply params (.arr (parts.map .str)) = .ok (.str (sep.intercalate parts)) := by
  have hdisplay : (parts.map Value.str).map Value.display = parts := by
    rw [List.map_map]
    exact List.map_id parts
  change Except.ok (join params (parts.map .str)) = _
  rw [join, hsep, hdisplay]

/-! ### Texts and their parts -/

theorem ofList_intercalate (sep : String) (parts : List (List Char)) :
    String.ofList (sep.toList.intercalate parts) = sep.intercalate (parts.map String.ofList) := by
  rw [← String.toList_inj, String.toList_ofList, String.toList_intercalate, Text.map_toList_ofList]

theorem intercalate_partsOf (hne : sep ≠ "") (cap : Option Nat) (text : String) :
    sep.intercalate (partsOf sep cap text) = text := by
  rw [partsOf, ← ofList_intercalate, Text.intercalate_splitFrom (by simpa using hne), List.drop_zero,
    String.ofList_toList]

theorem not_infix_of_mem_partsOf (hne : sep ≠ "") (text : String) :
    ∀ part ∈ partsOf sep none text, ¬ sep.toList <:+: part.toList := by
  refine List.forall_mem_map.mpr fun part hpart => ?_
  rw [String.toList_ofList]
  exact Text.not_infix_of_mem_splitFrom (by simpa using hne) 0 text.toList part hpart

theorem partsOf_some (hne : sep ≠ "") {n : Nat} (hn : 0 < n) (text : String) :
    partsOf sep (some n) text = Text.capped sep.intercalate n (partsOf sep none text) := by
  obtain ⟨cuts, rfl⟩ := Nat.exists_eq_add_one.mpr hn
  have hsplit : Text.splitFrom sep.toList (some cuts) 0 text.toList =
      Text.capped sep.toList.intercalate (cuts + 1) (Text.splitFrom sep.toList none 0 text.toList) :=
    Text.splitFrom_some (by simpa using hne) cuts 0 text.toList
  exact (congrArg (List.map String.ofList) hsplit).trans (Text.map_capped (ofList_intercalate sep) _ _)

theorem partsOf_intercalate {c : Char} {parts : List String} (hparts : parts ≠ [])
    (h : ∀ part ∈ parts, c ∉ part.toList) :
    partsOf (String.singleton c) none ((String.singleton c).intercalate parts) = parts := by
  have hsplit : Text.split [c] ([c].intercalate (parts.map String.toList)) = parts.map String.toList :=
    Text.split_intercalate (by simpa using hparts) (List.forall_mem_map.mpr h)
  rw [partsOf, String.toList_intercalate, String.toList_singleton]
  exact (congrArg (List.map String.ofList) hsplit).trans (Text.map_ofList_toList parts)

/-- The parts of a text make it up again, however many cuts are allowed. If that is not bounded, the separator is not
left in any of them; if it is, the first parts stay the same and all others are left together. And texts that are joined
with a character that none of them has are the parts of what they make up. -/
theorem split_join (sep : String) (hne : sep ≠ "") :
    (∀ text : String, ∃ all : List String,
      (∀ {params : Params}, SplitAt params sep → CapAt params none →
        Transform.split.apply params (.str text) = .ok (.arr (all.map .str))) ∧
      (∀ part ∈ all, ¬ sep.toList <:+: part.toList) ∧
      (∀ {joining : Params}, JoinWith joining sep →
        Transform.join.apply joining (.arr (all.map .str)) = .ok (.str text)) ∧
      ∀ {params : Params} {n : Nat}, SplitAt params sep → CapAt params (some n) →
        ∃ parts : List String, Transform.split.apply params (.str text) = .ok (.arr (parts.map .str)) ∧
          parts.length ≤ n ∧ parts = Text.capped sep.intercalate n all ∧
          ∀ {joining : Params}, JoinWith joining sep →
            Transform.join.apply joining (.arr (parts.map .str)) = .ok (.str text)) ∧
    ∀ (c : Char) (parts : List String), sep = String.singleton c → parts ≠ [] → (∀ part ∈ parts, c ∉ part.toList) →
      ∀ {joining params : Params}, JoinWith joining sep → SplitAt params sep → CapAt params none →
        ∃ text, Transform.join.apply joining (.arr (parts.map .str)) = .ok (.str text) ∧
          Transform.split.apply params (.str text) = .ok (.arr (parts.map .str)) := by
  constructor
  · intro text
    refine ⟨partsOf sep none text, fun hsep hcap => apply_split hsep hne hcap text,
      not_infix_of_mem_partsOf hne text, fun hjoin => ?_, fun {params n} hsep hcap => ?_⟩
    · rw [apply_join hjoin, intercalate_partsOf hne]
    · have hn : 0 < n := by cases hcap with | limited _ hn => exact hn
      have hparts := partsOf_some hne hn text
      refine ⟨_, apply_split hsep hne hcap text, ?_, hparts, fun hjoin => ?_⟩
      · rw [hparts]
        exact Text.length_capped_le hn _
      · rw [apply_join hjoin, intercalate_partsOf hne]
  · rintro c parts rfl hparts h joining params hjoin hsep hcap
    refine ⟨_, apply_join hjoin parts, ?_⟩
    rw [apply_split hsep hne hcap, partsOf_intercalate hparts h]

/-- A separator of two characters that begins as it ends is found from the left: of three `é` in a row the first two are
cut out. Where there may be two parts, the second one keeps it. The parts of `a,,b` are found without a separator being
given. -/
theorem split_join_overlapping :
    let sep := "éé"
    let text := "éééaééé"
    let all := ["", "éa", "é"]
    let plain : Params := [("limit", .str " -1"), ("separator", .str sep)]
    let bounded : Params := [("limit", .int 2), ("separator", .str sep)]
    let joining : Params := [("separator", .str ",")]
    sep ≠ "" ∧ SplitAt plain sep ∧ CapAt plain none ∧ SplitAt bounded sep ∧ CapAt bounded (some 2) ∧
      JoinWith plain sep ∧
      Transform.split.apply plain (.str text) = .ok (.arr (all.map .str)) ∧
      (∀ part ∈ all, ¬ sep.toList <:+: part.toList) ∧
      (∃ parts : List String, Transform.split.apply bounded (.str text) = .ok (.arr (parts.map .str)) ∧
        parts = ["", "éaééé"] ∧ Transform.join.apply plain (.arr (parts.map .str)) = .ok (.str text)) ∧
      JoinWith joining "," ∧ SplitAt [] "," ∧ CapAt [] none ∧
      ∃ joined, Transform.join.apply joining (.arr (["a", "", "b"].map .str)) = .ok (.str joined) ∧
        Transform.split.apply [] (.str joined) = .ok (.arr (["a", "", "b"].map .str)) := by
  intro sep text all plain bounded joining
  have hne : sep ≠ "" := by decide
  have hplain : SplitAt plain sep := rfl
  have huncapped : CapAt plain none := .notPositive (n := -1) (by decide +kernel) (by decide)
  have hbounded : SplitAt bounded sep := rfl
  have hcapped : CapAt bounded (some 2) := .limited rfl (by decide)
  have hcut : partsOf sep none text = all := by decide +kernel
  have hall : Transform.split.apply plain (.str text) = .ok (.arr (all.map .str)) :=
    hcut ▸ apply_split hplain hne huncapped text
  obtain ⟨hparts, -⟩ := split_join sep hne
  obtain ⟨found, hfound, hfree, -, hbound⟩ := hparts text
  obtain rfl : found = all := by
    have heq := (hfound hplain huncapped).symm.trans hall
    exact List.map_injective_iff.mpr (fun _ _ => Value.str.inj) (Value.arr.inj (Except.ok.inj heq))
  obtain ⟨parts, hsplit, -, hcapped', hjoin⟩ := hbound hbounded hcapped
  have hjoining : JoinWith joining "," := rfl
  have hcomma : SplitAt [] "," := rfl
  have hnone : CapAt [] none := .unlimited rfl
  obtain ⟨-, hback⟩ := split_join "," (by decide)
  refine ⟨hne, hplain, huncapped, hbounded, hcapped, rfl, hall, hfree, ⟨parts, hsplit, ?_, hjoin rfl⟩, hjoining, hcomma,
    hnone, hback ',' ["a", "", "b"] rfl (by decide) (by decide) hjoining hcomma hnone⟩
  rw [hcapped']
  decide +kernel

end Transforms

end Pipewright
