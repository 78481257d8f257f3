import Pipewright.Proofs.DefinitionRoundTrip
import Pipewright.Proofs.OutlinePlaces
import Pipewright.Proofs.StaticBounds
import Pipewright.Terminal

/-!
# The outline as an index

The path of an entry, read as the moves that it names, leads into the definition that the pipeline is written as, and to
the very step that the entry tells of. The entries are as many as the steps. A step stands before those inside it and
before its later siblings, and how deep it is can be read off its path.
-/
namespace Pipewright

/-! ### Parts of a value -/

namespace Value

/-- The part of a value that one move leads to: an entry of an object, or an item of an array. -/
def part? : Selector → Value → Option Value
  | .key k, v => v.member? k.name
  | .index i, .arr items => items[i]?
  | .index _, _ => none

/-- The part of a value at the end of a path. -/
def at? : Path → Value → Option Value
  | [], v => some v
  | selector :: rest, v => (part? selector v).bind (at? rest)

theorem at?_append (path more : Path) (v : Value) : at? (path ++ more) v = (at? path v).bind (at? more) := by
  induction path generalizing v with
  | nil => rfl
  | cons selector rest ih =>
    rw [List.cons_append, at?, at?, Option.bind_assoc]
    exact congrArg (Option.bind _) (funext ih)

@[simp] theorem at?_singleton (selector : Selector) (v : Value) : at? [selector] v = part? selector v := by
  cases h : part? selector v <;> simp [at?, h]

theorem at?_index {root : Value} {path : Path} {items : List Value} (h : root.at? path = some (.arr items)) (i : Nat) :
    root.at? (path.index i) = items[i]? := by
  rw [Path.index, at?_append, h, Option.bind_some, at?_singleton, part?]

/-- A text, read as a path, leads to a part of a value. -/
def Addresses (root : Value) (text : String) (part : Value) : Prop :=
  ∃ path : Path, path.text = text ∧ root.at? path = some part

theorem addresses_text_iff {root part : Value} {path : Path} :
    root.Addresses path.text part ↔ root.at? path = some part := by
  constructor
  · rintro ⟨other, htext, hpart⟩
    exact Path.text_injective htext ▸ hpart
  · exact fun hpart => ⟨path, rfl, hpart⟩

end Value

/-! ### What steps are written as -/

namespace Step

open Value

theorem encodeAll_eq_map (steps : List Step) : encodeAll steps = steps.map encode := by
  induction steps with
  | nil => rfl
  | cons s rest ih => rw [encodeAll, List.map_cons, ih]

theorem member?_encodeAs (kind : StepKind) (entries : List (String × Value)) (output : Option String) (name : String) :
    (encodeAs kind entries output).member? name =
      (if "output" = name then output.map .str else none).or
        ((Fields.get? name entries.reverse).or (if "type" = name then some (.str kind.name) else none)) := by
  simp [encodeAs, member?, fields?, optionalText, Fields.get?]

/-- The lists of a step stand beside its type and its output. -/
theorem part?_encodeAs (kind : StepKind) (entries : List (String × Value)) (output : Option String) (k : Key) :
    (encodeAs kind entries output).part? (.key k) = Fields.get? k.name entries.reverse := by
  have hnames : "type" ≠ k.name ∧ "output" ≠ k.name := by cases k <;> decide
  rw [part?, member?_encodeAs, if_neg hnames.1, if_neg hnames.2, Option.none_or, Option.or_none]

/-- The steps of a pipeline are found in what it is written as. -/
theorem part?_steps_encode (pipeline : Pipeline) :
    pipeline.encode.part? (.key .steps) = some (.arr (encodeAll pipeline.steps)) := by
  simp [PipelineOf.encode, PipelineOf.encodeParts, part?, member?, fields?, optionalText, Fields.get?, Key.name]

/-- A list of a step is found in what the step is written as. -/
theorem at?_of_mem_children {s : Step} {below : Path} {steps : List Step} (h : (below, steps) ∈ s.children) :
    s.encode.at? below = some (.arr (encodeAll steps)) := by
  cases s with
  | ability | transform => cases h
  | conditional condition whenTrue whenFalse output =>
    simp only [children, List.mem_cons, Prod.mk.injEq, List.not_mem_nil, or_false] at h
    rcases h with ⟨rfl, rfl⟩ | ⟨rfl, rfl⟩ <;> simp [encode, part?_encodeAs, Fields.get?, Key.name]
  | loop input body itemVar indexVar collect output =>
    obtain ⟨rfl, rfl⟩ := Prod.mk.inj (List.mem_singleton.mp h)
    simp [encode, part?_encodeAs, Fields.get?, Key.name, optionalText]
  | parallel branches output =>
    obtain ⟨rfl, rfl⟩ := Prod.mk.inj (List.mem_singleton.mp h)
    simp [encode, part?_encodeAs, Fields.get?, Key.name]
  | tryCatch attempt recovery always output =>
    cases recovery with
    | none =>
      simp only [children, Option.map_none, Option.toList_none, List.cons_append, List.nil_append, List.mem_cons,
        Prod.mk.injEq, List.not_mem_nil, or_false] at h
      rcases h with ⟨rfl, rfl⟩ | ⟨rfl, rfl⟩ <;>
        simp [encode, part?_encodeAs, Fields.get?, Key.name, encodeOption]
    | some recovering =>
      simp only [children, Option.map_some, Option.toList_some, List.cons_append, List.nil_append, List.mem_cons,
        Prod.mk.injEq, List.not_mem_nil, or_false] at h
      rcases h with ⟨rfl, rfl⟩ | ⟨rfl, rfl⟩ | ⟨rfl, rfl⟩ <;>
        simp [encode, part?_encodeAs, Fields.get?, Key.name, encodeOption]
  | subPipeline pipeline inputs output =>
    obtain ⟨rfl, rfl⟩ := Prod.mk.inj (List.mem_singleton.mp h)
    have hpipeline : part? (.key .pipeline) (Step.encode (.subPipeline pipeline inputs output)) =
        some pipeline.encode := by
      simp [encode, part?_encodeAs, Fields.get?, Key.name, PipelineOf.encode]
    rw [at?, hpipeline, Option.bind_some, at?_singleton, part?_steps_encode]

/-- Steps that are written as the same have the same entries beside their type and their output. -/
theorem get?_eq_of_encodeAs_eq {kind other : StepKind} {entries more : List (String × Value)}
    {output result : Option String} (h : encodeAs kind entries output = encodeAs other more result) (name : String)
    (hname : "type" ≠ name ∧ "output" ≠ name) : Fields.get? name entries.reverse = Fields.get? name more.reverse := by
  have hmember := congrArg (member? · name) h
  simpa [member?_encodeAs, hname] using hmember

theorem length_eq_of_encodeAll_eq {steps more : List Step} (h : encodeAll steps = encodeAll more) :
    steps.length = more.length := by
  have hlength := congrArg List.length h
  rwa [encodeAll_eq_map, encodeAll_eq_map, List.length_map, List.length_map] at hlength

theorem isSome_eq_of_encodeOption_eq {recovery other : Option (List Step)}
    (h : (encodeOption recovery).map Value.arr = (encodeOption other).map Value.arr) :
    recovery.isSome = other.isSome := by
  cases recovery <;> cases other <;> first | rfl | cases h

theorem member?_name_encode (pipeline : Pipeline) : pipeline.encode.member? "name" = pipeline.name.map .str := by
  simp [PipelineOf.encode, PipelineOf.encodeParts, member?, fields?, optionalText, Fields.get?]

theorem member?_type_encode (s : Step) : s.encode.member? "type" = some (.str s.kind.name) := by
  cases s <;> simp [encode, member?_encodeAs, Fields.get?, optionalText, kind]

theorem member?_output_encode (s : Step) : s.encode.member? "output" = s.output.map .str := by
  cases s <;> simp [encode, member?_encodeAs, Fields.get?, optionalText, output]

/-- What a step is written as tells its kind, what it does and where its result goes. -/
theorem shown_of_encode_eq {s t : Step} (h : s.encode = t.encode) :
    s.kind = t.kind ∧ s.describe = t.describe ∧ s.output = t.output := by
  have hmember (name : String) : s.encode.member? name = t.encode.member? name := by rw [h]
  have hkind : s.kind = t.kind := by
    have htype := hmember "type"
    rw [member?_type_encode, member?_type_encode] at htype
    have hparse := congrArg StepKind.parse? (Value.str.inj (Option.some.inj htype))
    rwa [parse?_name, parse?_name, Option.some.injEq] at hparse
  have houtput : s.output = t.output := by
    have htext := hmember "output"
    rw [member?_output_encode, member?_output_encode] at htext
    exact Option.map_injective (fun _ _ => Value.str.inj) htext
  refine ⟨hkind, ?_, houtput⟩
  cases s with
  | ability name =>
    cases t with
    | ability other =>
      have hname : some (str name) = some (str other) := get?_eq_of_encodeAs_eq h "ability" (by decide)
      cases hname
      rfl
    | _ => cases hkind
  | transform operation =>
    cases t with
    | transform other =>
      have hoperation : some (str operation) = some (str other) := get?_eq_of_encodeAs_eq h "operation" (by decide)
      cases hoperation
      rfl
    | _ => cases hkind
  | conditional condition whenTrue whenFalse =>
    cases t with
    | conditional condition' whenTrue' whenFalse' =>
      have hthen : some (arr (encodeAll whenTrue)) = some (arr (encodeAll whenTrue')) :=
        get?_eq_of_encodeAs_eq h "then" (by decide)
      have helse : some (arr (encodeAll whenFalse)) = some (arr (encodeAll whenFalse')) :=
        get?_eq_of_encodeAs_eq h "else" (by decide)
      rw [describe, describe, length_eq_of_encodeAll_eq (arr.inj (Option.some.inj hthen)),
        length_eq_of_encodeAll_eq (arr.inj (Option.some.inj helse))]
    | _ => cases hkind
  | loop input body itemVar indexVar collect output =>
    cases t with
    | loop input' body' itemVar' indexVar' collect' output' =>
      have hnames (name : String) (hname : "type" ≠ name ∧ "output" ≠ name) :=
        get?_eq_of_encodeAs_eq (h : encodeAs _ _ _ = encodeAs _ _ _) name hname
      have hinput : input = input' := by simpa [optionalText, Fields.get?] using hnames "input" (by decide)
      have hitem : itemVar = itemVar' := by simpa [optionalText, Fields.get?] using hnames "item_var" (by decide)
      rw [describe, describe, hinput, hitem]
    | _ => cases hkind
  | parallel branches =>
    cases t with
    | parallel others =>
      have hbranches : some (arr (encodeAll branches)) = some (arr (encodeAll others)) :=
        get?_eq_of_encodeAs_eq h "steps" (by decide)
      rw [describe, describe, length_eq_of_encodeAll_eq (arr.inj (Option.some.inj hbranches))]
    | _ => cases hkind
  | tryCatch attempt recovery always =>
    cases t with
    | tryCatch attempt' recovery' always' =>
      have hnames (name : String) (hname : "type" ≠ name ∧ "output" ≠ name) :=
        get?_eq_of_encodeAs_eq (h : encodeAs _ _ _ = encodeAs _ _ _) name hname
      have hcatch : (encodeOption recovery).map arr = (encodeOption recovery').map arr := by
        simpa [Fields.get?] using hnames "catch" (by decide)
      have hfinally : encodeAll always = encodeAll always' := by simpa [Fields.get?] using hnames "finally" (by decide)
      have hempty : always.isEmpty = always'.isEmpty := by
        rw [Bool.eq_iff_iff, List.isEmpty_iff_length_eq_zero, List.isEmpty_iff_length_eq_zero,
          length_eq_of_encodeAll_eq hfinally]
      rw [describe, describe, isSome_eq_of_encodeOption_eq hcatch, hempty]
    | _ => cases hkind
  | subPipeline pipeline =>
    cases t with
    | subPipeline other =>
      have hpipeline : some pipeline.encode = some other.encode := get?_eq_of_encodeAs_eq h "pipeline" (by decide)
      have hsteps : some (arr (encodeAll pipeline.steps)) = some (arr (encodeAll other.steps)) := by
        rw [← part?_steps_encode, ← part?_steps_encode, Option.some.inj hpipeline]
      have hname : pipeline.name.map str = other.name.map str := by
        rw [← member?_name_encode, ← member?_name_encode, Option.some.inj hpipeline]
      rw [describe, describe, Option.map_injective (fun _ _ => str.inj) hname,
        length_eq_of_encodeAll_eq (arr.inj (Option.some.inj hsteps))]
    | _ => cases hkind

end Step

/-! ### Paths of an outline -/

namespace Path

/-- How many lists a path goes into. -/
def indices (path : Path) : Nat := path.countP fun
  | .index _ => true
  | .key _ => false

@[simp] theorem indices_key_cons (k : Key) (rest : Path) : indices (.key k :: rest) = indices rest :=
  List.countP_cons_of_neg Bool.false_ne_true

@[simp] theorem indices_index_cons (i : Nat) (rest : Path) : indices (.index i :: rest) = indices rest + 1 :=
  List.countP_cons_of_pos rfl

@[simp] theorem indices_append (path more : Path) : (path ++ more).indices = path.indices + more.indices :=
  List.countP_append

@[simp] theorem indices_index (path : Path) (i : Nat) : (path.index i).indices = path.indices + 1 :=
  indices_append path [.index i]

theorem count_name (k : Key) : k.name.toList.count '[' = 0 :=
  List.count_eq_zero.mpr fun hmem => absurd (k.isPlain_of_mem _ hmem) (by decide)

theorem count_suffixText (path : Path) : path.suffixText.toList.count '[' = path.indices := by
  induction path with
  | nil => rfl
  | cons selector rest ih =>
    cases selector with
    | key k =>
      rw [suffixText_key, List.count_cons_of_ne (by decide), List.count_append, count_name, Nat.zero_add, ih,
        indices_key_cons]
    | index i =>
      have hdigits : (Nat.toDigits 10 i).count '[' = 0 := List.count_eq_zero.mpr (notMem_toDigits (by decide) i)
      rw [suffixText_index, List.count_cons_self, List.count_append, hdigits, List.count_cons_of_ne (by decide), ih,
        Nat.zero_add, indices_index_cons]

/-- The brackets that open in a text are the indices on the path. -/
theorem count_text (path : Path) : path.text.toList.count '[' = path.indices := by
  match path with
  | [] => rfl
  | .key k :: rest =>
    rw [text, String.toList_append, List.count_append, count_name, count_suffixText, Nat.zero_add, indices_key_cons]
  | .index i :: rest => exact count_suffixText (.index i :: rest)

/-- A place comes before another one if it is around it, or if the two are in different items of a list, itself in the
earlier one. -/
def Precedes (path other : Path) : Prop :=
  other.Below path ∨ ∃ list i j, i < j ∧ Path.index list i <+: path ∧ Path.index list j <+: other

theorem next_unique {path list : Path} {x y : Selector} (hx : list ++ [x] <+: path) (hy : list ++ [y] <+: path) :
    x = y := by
  have hlength : (list ++ [x]).length = (list ++ [y]).length := by simp
  have hin := List.prefix_of_prefix_length_le hx hy (Nat.le_of_eq hlength)
  exact (List.append_singleton_inj.mp (hin.eq_of_length hlength)).2

/-- Two paths part in one place only. -/
theorem parting_unique {path other first second : Path} {x y u v : Selector} (hne : x ≠ y) (hne' : u ≠ v)
    (hx : first ++ [x] <+: path) (hy : first ++ [y] <+: other) (hu : second ++ [u] <+: path)
    (hv : second ++ [v] <+: other) : x = u ∧ y = v := by
  -- Of two such places the upper one would be passed on the way to the lower one, on both paths alike.
  have hpassed {upper lower path other : Path} {x y u v : Selector} (hx : upper ++ [x] <+: path)
      (hy : upper ++ [y] <+: other) (hu : lower ++ [u] <+: path) (hv : lower ++ [v] <+: other)
      (hshort : upper.length < lower.length) : x = y := by
    have hlower : upper ++ [x] <+: lower :=
      List.prefix_of_prefix_length_le hx ((List.prefix_append _ _).trans hu) (by rwa [List.length_append])
    exact next_unique (hlower.trans ((List.prefix_append _ _).trans hv)) hy
  rcases Nat.lt_trichotomy first.length second.length with hlt | heq | hgt
  · exact absurd (hpassed hx hy hu hv hlt) hne
  · have hsame : first = second :=
      (List.prefix_of_prefix_length_le ((List.prefix_append _ _).trans hx) ((List.prefix_append _ _).trans hu)
        (Nat.le_of_eq heq)).eq_of_length heq
    subst hsame
    exact ⟨next_unique hx hu, next_unique hy hv⟩
  · exact absurd (hpassed hu hv hx hy hgt) hne'

variable {path other : Path}

/-- What is in a place does not precede it. -/
theorem not_precedes_of_prefix (h : path <+: other) : ¬ other.Precedes path := by
  rintro (hbelow | ⟨list, i, j, hij, hi, hj⟩)
  · exact hbelow.2 (h.eq_of_length_le hbelow.1.length_le)
  · exact absurd (index_unique hi (hj.trans h)) (Nat.ne_of_lt hij)

/-- Places of two parts do not precede each other unless a list has the parts as items. -/
theorem not_precedes_of_parting {list : Path} {x y : Selector} (hne : x ≠ y) (hx : list ++ [x] <+: path)
    (hy : list ++ [y] <+: other) (h : ∀ i j, x = .index i → y = .index j → i < j) : ¬ other.Precedes path := by
  rintro (hbelow | ⟨second, i, j, hij, hi, hj⟩)
  · exact hne (next_unique hx (hy.trans hbelow.1))
  · obtain ⟨rfl, rfl⟩ := parting_unique hne (by simpa using Nat.ne_of_gt hij) hx hy hj hi
    exact absurd (h j i rfl rfl) (Nat.not_lt.mpr (Nat.le_of_lt hij))

end Path

namespace Step

open Value

/-- Entries of which none has one behind it that precedes it. -/
def InOrder (entries : List (OutlineEntry Path)) : Prop :=
  entries.Pairwise fun entry other => ¬ other.path.Precedes entry.path

theorem inOrder_outlineFrom {path : Path} {depth : Nat} {steps : List Step}
    (h : ∀ s ∈ steps, ∀ path depth, InOrder (s.outline path depth)) (i : Nat) :
    InOrder (outlineFrom path depth i steps) := by
  induction steps generalizing i with
  | nil => exact .nil
  | cons s rest ih =>
    refine List.pairwise_append.mpr ⟨h s List.mem_cons_self _ _, ?_, fun entry hentry other hother => ?_⟩
    · exact ih (fun t ht => h t (List.mem_cons_of_mem _ ht)) (i + 1)
    · have hi := outline_within s (path.index i) depth entry hentry
      obtain ⟨j, hj, hother⟩ := outlineFrom_within hother
      have hne : Selector.index i ≠ .index j := by simpa using Nat.ne_of_lt hj
      refine Path.not_precedes_of_parting hne hi hother fun m n hm hn => ?_
      cases hm
      cases hn
      exact hj

/-- A step is outlined before what is in it, and what is in an item of a list before what is in later items. -/
theorem inOrder_outline (s : Step) (path : Path) (depth : Nat) : InOrder (s.outline path depth) := by
  induction s using children_induction generalizing path depth with
  | h s ih =>
    rw [outline_eq]
    refine List.pairwise_cons.mpr ⟨fun entry hentry => ?_, List.pairwise_flatMap.mpr ⟨fun list hlist => ?_, ?_⟩⟩
    · obtain ⟨list, -, hentry⟩ := List.mem_flatMap.mp hentry
      obtain ⟨j, -, hin⟩ := outlineFrom_within hentry
      exact Path.not_precedes_of_prefix (((List.prefix_append _ _).trans (List.prefix_append _ _)).trans hin)
    · exact inOrder_outlineFrom (fun t ht path depth => ih list hlist t ht path depth) 0
    · refine (children_parted s).imp fun hparted entry hentry other hother => ?_
      obtain ⟨part, more, hne, hpart, hmore⟩ := hparted
      obtain ⟨i, -, hi⟩ := outlineFrom_within hentry
      obtain ⟨j, -, hj⟩ := outlineFrom_within hother
      rw [hpart] at hi
      rw [hmore] at hj
      exact Path.not_precedes_of_parting (fun heq => hne (Selector.key.inj heq)) ((List.prefix_append _ _).trans hi)
        ((List.prefix_append _ _).trans hj) nofun

/-! ### What the entries tell -/

theorem length_outlineFrom {steps : List Step}
    (h : ∀ s ∈ steps, ∀ path depth, (s.outline path depth).length = s.totalSteps) (path : Path) (depth i : Nat) :
    (outlineFrom path depth i steps).length = sumOf (steps.map totalSteps) := by
  induction steps generalizing i with
  | nil => rfl
  | cons s rest ih =>
    obtain ⟨hs, hrest⟩ := List.forall_mem_cons.mp h
    rw [outlineFrom, List.length_append, hs, ih hrest]
    rfl

/-- An outline has an entry for each step. -/
theorem length_outline (s : Step) (path : Path) (depth : Nat) : (s.outline path depth).length = s.totalSteps := by
  induction s using children_induction generalizing path depth with
  | h s ih =>
    rw [outline_eq, List.length_cons, List.length_flatMap, totalSteps_eq, Nat.add_comm]
    refine congrArg (1 + List.sum ·) (List.map_congr_left fun list hlist => ?_)
    exact length_outlineFrom (ih list hlist) _ _ 0

/-- Entries lead to steps if their paths lead there. -/
theorem led_outline {root : Value} (s : Step) (path : Path) (depth : Nat) (h : root.at? path = some s.encode) :
    ∀ entry ∈ s.outline path depth, ∃ t : Step, root.at? entry.path = some t.encode ∧
      entry = t.outlineEntry entry.path entry.depth := by
  induction s using children_induction generalizing path depth with
  | h s ih =>
    rw [outline_eq]
    refine List.forall_mem_cons.mpr ⟨⟨s, h, rfl⟩, fun entry hentry => ?_⟩
    obtain ⟨list, hlist, hentry⟩ := List.mem_flatMap.mp hentry
    obtain ⟨j, t, ht, hentry⟩ := exists_of_mem_outlineFrom hentry
    have hfound : root.at? (path ++ list.1) = some (.arr (encodeAll list.2)) := by
      rw [at?_append, h, Option.bind_some, at?_of_mem_children hlist]
    refine ih list hlist t (List.mem_of_getElem? ht) _ _ ?_ entry hentry
    rw [at?_index hfound, encodeAll_eq_map, List.getElem?_map, Nat.zero_add, ht, Option.map_some]

/-- A list goes no further into lists than the step that it is in. -/
theorem indices_children (s : Step) : ∀ list ∈ s.children, list.1.indices = 0 := by
  cases s with
  | ability | transform => exact List.forall_mem_nil _
  | loop | parallel | subPipeline => exact List.forall_mem_singleton.mpr rfl
  | conditional => exact List.forall_mem_cons.mpr ⟨rfl, List.forall_mem_singleton.mpr rfl⟩
  | tryCatch attempt recovery always output =>
    cases recovery with
    | none => exact List.forall_mem_cons.mpr ⟨rfl, List.forall_mem_singleton.mpr rfl⟩
    | some steps =>
      exact List.forall_mem_cons.mpr ⟨rfl, List.forall_mem_cons.mpr ⟨rfl, List.forall_mem_singleton.mpr rfl⟩⟩

/-- An entry is as much deeper than the step as its path goes further into lists. -/
theorem depth_outline (s : Step) (path : Path) (depth : Nat) :
    ∀ entry ∈ s.outline path depth, entry.depth + path.indices = depth + entry.path.indices := by
  induction s using children_induction generalizing path depth with
  | h s ih =>
    rw [outline_eq]
    refine List.forall_mem_cons.mpr ⟨rfl, fun entry hentry => ?_⟩
    obtain ⟨list, hlist, hentry⟩ := List.mem_flatMap.mp hentry
    obtain ⟨j, t, ht, hentry⟩ := exists_of_mem_outlineFrom hentry
    have hinner := ih list hlist t (List.mem_of_getElem? ht) _ _ entry hentry
    rw [Path.indices_index, Path.indices_append, indices_children s list hlist] at hinner
    omega

theorem depth_le_nesting (s : Step) (path : Path) (depth : Nat) :
    ∀ entry ∈ s.outline path depth, entry.depth ≤ depth + s.nesting := by
  induction s using children_induction generalizing path depth with
  | h s ih =>
    rw [outline_eq]
    refine List.forall_mem_cons.mpr ⟨Nat.le_add_right _ _, fun entry hentry => ?_⟩
    obtain ⟨list, hlist, hentry⟩ := List.mem_flatMap.mp hentry
    obtain ⟨j, t, ht, hentry⟩ := exists_of_mem_outlineFrom hentry
    have hmem := List.mem_of_getElem? ht
    have hinner := ih list hlist t hmem _ _ entry hentry
    have hroom := (nesting_le_iff.mp (Nat.le_refl s.nesting) list hlist).2 t hmem
    omega

end Step

namespace PipelineOf

open Value

variable {pipeline : Pipeline} {entry : OutlineEntry Path}

theorem at?_top_encode (pipeline : Pipeline) :
    pipeline.encode.at? Path.top = some (.arr (Step.encodeAll pipeline.steps)) :=
  (at?_singleton _ _).trans (Step.part?_steps_encode pipeline)

theorem entries_eq (pipeline : Pipeline) :
    pipeline.outline.entries = Step.outlineFrom Path.top 0 0 pipeline.steps :=
  Step.outlineList_map_outline _ _ _

/-- An entry is in the outline of a step of the top list. -/
theorem exists_of_mem_entries (h : entry ∈ pipeline.outline.entries) :
    ∃ (i : Nat) (s : Step), pipeline.steps[i]? = some s ∧ entry ∈ s.outline (Path.top.index i) 0 := by
  obtain ⟨i, s, hs, hin⟩ := Step.exists_of_mem_outlineFrom (entries_eq pipeline ▸ h)
  exact ⟨i, s, hs, by rwa [Nat.zero_add] at hin⟩

theorem length_entries (pipeline : Pipeline) : pipeline.outline.entries.length = pipeline.totalSteps := by
  rw [entries_eq]
  exact Step.length_outlineFrom (fun s _ => s.length_outline) _ _ 0

theorem nodup_entries (pipeline : Pipeline) : (pipeline.outline.entries.map fun entry => entry.path.text).Nodup := by
  rw [entries_eq]
  exact List.pairwise_map.mpr ((Step.apart_outlineFrom (fun s _ => s.apart_outline) 0).imp
    fun hne htext => hne (Path.text_injective htext))

theorem inOrder_entries (pipeline : Pipeline) : Step.InOrder pipeline.outline.entries :=
  entries_eq pipeline ▸ Step.inOrder_outlineFrom (fun s _ => s.inOrder_outline) 0

/-- The path of an entry leads to what the step is written as that the entry is made of. -/
theorem led_entry (h : entry ∈ pipeline.outline.entries) : ∃ t : Step,
    pipeline.encode.at? entry.path = some t.encode ∧ entry = t.outlineEntry entry.path entry.depth := by
  obtain ⟨i, s, hs, hin⟩ := exists_of_mem_entries h
  have hled : pipeline.encode.at? (Path.top.index i) = some s.encode := by
    rw [at?_index pipeline.at?_top_encode, Step.encodeAll_eq_map, List.getElem?_map, hs, Option.map_some]
  exact s.led_outline _ _ hled entry hin

theorem count_path_entry (h : entry ∈ pipeline.outline.entries) :
    entry.path.text.toList.count '[' = entry.depth + 1 := by
  obtain ⟨i, s, -, hin⟩ := exists_of_mem_entries h
  have hdepth := s.depth_outline _ _ entry hin
  have htop : (Path.top.index i).indices = 1 := rfl
  rw [Path.count_text]
  omega

theorem depth_entry_le (h : entry ∈ pipeline.outline.entries) : entry.depth ≤ pipeline.maxNesting := by
  obtain ⟨i, s, hs, hin⟩ := exists_of_mem_entries h
  have hnesting := s.depth_le_nesting _ _ entry hin
  have hmax : s.nesting ≤ pipeline.maxNesting :=
    List.le_max?_getD_of_mem (List.mem_map_of_mem (List.mem_of_getElem? hs))
  omega

/-- The outline of a pipeline has an entry for each of its steps, and no two of them have the same path. The path of an
entry leads into the definition of the pipeline to one value, and any step that is written as this value has the kind,
the summary and the output that the entry shows. Steps come before those inside them and before their later siblings.
The depth of an entry is told by the brackets in its path, is the level that events of its step are shown at, and stays
within the nesting of the pipeline. -/
theorem outline_index (pipeline : Pipeline) :
    let entries := pipeline.outline.entries
    entries.length = pipeline.totalSteps ∧
    (entries.map fun entry => entry.path.text).Nodup ∧
    (∀ entry ∈ entries, ∃ s : Step, (∀ v, pipeline.encode.Addresses entry.path.text v ↔ v = s.encode) ∧
      ∀ t : Step, t.encode = s.encode → entry.kind = t.kind ∧ entry.summary = t.describe ∧ entry.output = t.output) ∧
    (∀ i j, ∀ (hi : i < entries.length) (hj : j < entries.length),
      entries[i].path.Precedes entries[j].path → i < j) ∧
    ∀ entry ∈ entries, entry.path.text.toList.count '[' = entry.depth + 1 ∧
      Terminal.level entry.path.text = entry.depth ∧ entry.depth ≤ pipeline.maxNesting := by
  intro entries
  refine ⟨length_entries pipeline, nodup_entries pipeline, fun entry hentry => ?_, fun i j hi hj hprecedes => ?_,
    fun entry hentry => ?_⟩
  · obtain ⟨t, ht, heq⟩ := led_entry hentry
    refine ⟨t, fun v => ?_, fun u hu => ?_⟩
    · rw [addresses_text_iff, ht, Option.some.injEq, eq_comm]
    · obtain ⟨hkind, hsummary, houtput⟩ := Step.shown_of_encode_eq hu
      rw [heq]
      exact ⟨hkind.symm, hsummary.symm, houtput.symm⟩
  · rcases Nat.lt_trichotomy i j with hlt | rfl | hgt
    · exact hlt
    · exact absurd hprecedes (Path.not_precedes_of_prefix List.prefix_rfl)
    · exact absurd hprecedes (List.pairwise_iff_getElem.mp (inOrder_entries pipeline) j i hj hi hgt)
  · have hbrackets := count_path_entry hentry
    refine ⟨hbrackets, ?_, depth_entry_le hentry⟩
    rw [Terminal.level, hbrackets, Nat.add_sub_cancel]

/-- The third step of a recovering list, in a pipeline that is the second step of another one. -/
theorem outline_index_nested :
    let log : Step := .ability "log" .null none
    let undo : Step := .ability "undo" .null (some "undone")
    let nested : Pipeline := ⟨none, none, [.tryCatch [log] (some [log, log, undo]) [] none], none, none⟩
    let pipeline : Pipeline := ⟨none, none, [log, .subPipeline nested [] none], none, none⟩
    let entries := pipeline.outline.entries
    let around : Path := [.key .steps, .index 1]
    let entry : OutlineEntry Path := ⟨around ++ [.key .pipeline, .key .steps, .index 0, .key .catchSteps, .index 2], 2,
      .ability, "call undo", some "undone"⟩
    entries.length = 7 ∧ entries[6]? = some entry ∧ entry.path.text = "steps[1].pipeline.steps[0].catch[2]" ∧
      pipeline.encode.Addresses entry.path.text undo.encode ∧ entry.summary = undo.describe ∧
      Terminal.level entry.path.text = 2 ∧ entry.depth ≤ pipeline.maxNesting ∧
      ∀ i (hi : i < entries.length), entries[i].path = around → i < 6 := by
  intro log undo nested pipeline entries around entry
  obtain ⟨hlength, -, haddresses, horder, hdepth⟩ := outline_index pipeline
  have hseven : entries.length = 7 := hlength.trans (by decide)
  have hentry : entries[6]? = some entry := by rfl
  have hmem := List.mem_of_getElem? hentry
  obtain ⟨s, hs, hshown⟩ := haddresses entry hmem
  have hnested : (Step.encode (.subPipeline nested [] none)).at? [.key .pipeline, .key .steps] =
      some (.arr (Step.encodeAll nested.steps)) := Step.at?_of_mem_children List.mem_cons_self
  have hrecovery : (Step.encode (.tryCatch [log] (some [log, log, undo]) [] none)).at? [.key .catchSteps] =
      some (.arr (Step.encodeAll [log, log, undo])) := Step.at?_of_mem_children (by simp [Step.children])
  have hundo : pipeline.encode.Addresses entry.path.text undo.encode := by
    refine addresses_text_iff.mpr ?_
    change pipeline.encode.at? (Path.top ++ .index 1 :: _) = _
    rw [at?_append, at?_top_encode]
    change (Step.encode (.subPipeline nested [] none)).at? ([.key .pipeline, .key .steps] ++ .index 0 :: _) = _
    rw [at?_append, hnested]
    change (Step.encode (.tryCatch [log] (some [log, log, undo]) [] none)).at? ([.key .catchSteps] ++ [.index 2]) = _
    rw [at?_append, hrecovery]
    rfl
  obtain ⟨-, hsummary, -⟩ := hshown undo ((hs undo.encode).mp hundo)
  obtain ⟨-, hlevel, hnesting⟩ := hdepth entry hmem
  refine ⟨hseven, hentry, by decide, hundo, hsummary, hlevel, hnesting, fun i hi haround => ?_⟩
  have hsix : 6 < entries.length := hseven ▸ Nat.lt_succ_self 6
  have hlast : entries[6] = entry := Option.some.inj ((List.getElem?_eq_getElem hsix).symm.trans hentry)
  refine horder i 6 hi hsix (.inl ?_)
  rw [hlast, haround]
  decide

end PipelineOf

end Pipewright
