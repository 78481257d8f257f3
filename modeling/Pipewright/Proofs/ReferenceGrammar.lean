import Mathlib.Data.Char
import Pipewright.Proofs.PatternWords
import Pipewright.Proofs.SeparatedTexts
import Pipewright.Reference

/-!
# The grammar of references

A reference is a dollar sign, an identifier, and any number of segments with a dot before each, and nothing else is read
as one. The pattern takes nothing but such texts, and its groups capture the identifier and all the segments; cut at its
dots, the second of them gives the segments back. The text can be put together again from what is read, so no two texts
are read as the same reference.
-/
namespace Pipewright

namespace Reference

/-! ### Identifiers and segments -/

/-- The letters of ASCII. -/
def IsLetter (c : Char) : Prop := 'a' ≤ c ∧ c ≤ 'z' ∨ 'A' ≤ c ∧ c ≤ 'Z'

/-- The digits of ASCII. -/
def IsDigit (c : Char) : Prop := '0' ≤ c ∧ c ≤ '9'

/-- A letter or `_`, and then letters, digits and `_`. -/
def IsIdentifier (name : String) : Prop :=
  ∃ c cs, name.toList = c :: cs ∧ (IsLetter c ∨ c = '_') ∧ ∀ d ∈ cs, IsLetter d ∨ IsDigit d ∨ d = '_'

/-- Letters, digits, `_` and `-`, at least one of them. -/
def IsSegment (part : String) : Prop :=
  part ≠ "" ∧ ∀ c ∈ part.toList, IsLetter c ∨ IsDigit c ∨ c = '_' ∨ c = '-'

/-- Segments with a dot before each. -/
def dotted (path : List String) : String := String.join (path.map ("." ++ ·))

instance : DecidablePred IsLetter := fun c => inferInstanceAs (Decidable ('a' ≤ c ∧ c ≤ 'z' ∨ 'A' ≤ c ∧ c ≤ 'Z'))

instance : DecidablePred IsDigit := fun c => inferInstanceAs (Decidable ('0' ≤ c ∧ c ≤ '9'))

-- The characters of the part are gone through; the instance for all characters would be found first.
instance : DecidablePred IsSegment := fun part => @instDecidableAnd _ _ _ (List.decidableBAll _ part.toList)

/-- Every identifier could be a segment. -/
theorem IsIdentifier.isSegment {name : String} (h : IsIdentifier name) : IsSegment name := by
  obtain ⟨c, cs, hname, hc, hcs⟩ := h
  refine ⟨fun hempty => by simp [hempty] at hname, ?_⟩
  rw [hname]
  refine List.forall_mem_cons.mpr ⟨?_, fun d hd => ?_⟩
  · rcases hc with hletter | hmark
    · exact .inl hletter
    · exact .inr (.inr (.inl hmark))
  · rcases hcs d hd with hletter | hdigit | hmark
    · exact .inl hletter
    · exact .inr (.inl hdigit)
    · exact .inr (.inr (.inl hmark))

/-- A dot stands neither in an identifier nor in a segment. -/
theorem IsSegment.dot_notMem {part : String} (h : IsSegment part) : '.' ∉ part.toList := by
  intro hdot
  exact absurd (h.2 '.' hdot) (by decide)

/-! ### Reading and writing -/

/-- The root is an identifier, and the path is made of segments. -/
structure WellFormed (r : Reference) : Prop where
  root : IsIdentifier r.root
  path : ∀ part ∈ r.path, IsSegment part

theorem toList_dotted (path : List String) : (dotted path).toList = path.flatMap fun part => '.' :: part.toList := by
  simp [dotted, List.flatMap_map]

/-- Parts with dots between them are the first part and the others with a dot before each. -/
theorem intercalate_dot (root : String) (path : List String) :
    ['.'].intercalate (root.toList :: path.map String.toList) = root.toList ++ (dotted path).toList := by
  rw [toList_dotted]
  induction path generalizing root with
  | nil => simp
  | cons part rest ih =>
    rw [List.map_cons, List.intercalate_cons_cons, ih, List.flatMap_cons]
    simp

/-- The parts of a well-formed reference are found again between the dots. -/
theorem split_of_wellFormed {r : Reference} (h : r.WellFormed) :
    Text.split ['.'] (r.root.toList ++ (dotted r.path).toList) = r.root.toList :: r.path.map String.toList := by
  rw [← intercalate_dot]
  refine Text.split_intercalate (List.cons_ne_nil _ _) (List.forall_mem_cons.mpr ⟨?_, List.forall_mem_map.mpr ?_⟩)
  · exact h.root.isSegment.dot_notMem
  · exact fun part hpart => (h.path part hpart).dot_notMem

/-- What follows the root, cut at its dots, has the segments of the path for its parts that are not empty. -/
theorem filter_split_dotted {path : List String} (h : ∀ part ∈ path, IsSegment part) :
    ((Text.split ['.'] (dotted path).toList).filter (!·.isEmpty)).map String.ofList = path := by
  have hempty : (dotted path).toList = ['.'].intercalate ([] :: path.map String.toList) :=
    (intercalate_dot "" path).symm
  have hsplit : Text.split ['.'] (dotted path).toList = [] :: path.map String.toList := by
    rw [hempty]
    refine Text.split_intercalate (List.cons_ne_nil _ _) (List.forall_mem_cons.mpr ⟨List.not_mem_nil, ?_⟩)
    exact List.forall_mem_map.mpr fun part hpart => (h part hpart).dot_notMem
  have hkept : (path.map String.toList).filter (!·.isEmpty) = path.map String.toList := by
    refine List.filter_eq_self.mpr (List.forall_mem_map.mpr fun part hpart => ?_)
    simpa using (h part hpart).1
  rw [hsplit, List.filter_cons_of_neg (by decide), hkept, Text.map_ofList_toList]

/-- The text of a reference that is well-formed belongs to no other. -/
theorem WellFormed.eq_of_text_eq {r r' : Reference} (h : r.WellFormed) (h' : r'.WellFormed)
    (htext : "$" ++ r.root ++ dotted r.path = "$" ++ r'.root ++ dotted r'.path) : r = r' := by
  have hchars : r.root.toList ++ (dotted r.path).toList = r'.root.toList ++ (dotted r'.path).toList := by
    simpa using congrArg String.toList htext
  have hparts := congrArg (Text.split ['.']) hchars
  rw [split_of_wellFormed h, split_of_wellFormed h'] at hparts
  obtain ⟨hroot, hpath⟩ := List.cons.inj hparts
  have hsame : r.path = r'.path := by
    rw [← Text.map_ofList_toList r.path, hpath, Text.map_ofList_toList]
  cases r
  cases r'
  exact mk.injEq .. ▸ ⟨String.toList_inj.mp hroot, hsame⟩

/-! ### What the pattern takes -/

section

open Computability Text Text.Pattern

theorem inClass_single (c d : Char) : InClass [(d, d)] c ↔ c = d := by
  simp [inClass_cons, inClass_nil, le_antisymm_iff, and_comm]

theorem inClass_nameStart (c : Char) : InClass nameStart c ↔ IsLetter c ∨ c = '_' := by
  rw [nameStart, inClass_cons, inClass_cons, inClass_single, IsLetter]
  tauto

theorem inClass_nameChar (c : Char) : InClass nameChar c ↔ IsLetter c ∨ IsDigit c ∨ c = '_' := by
  rw [nameChar, inClass_cons, inClass_cons, inClass_cons, inClass_single, IsLetter, IsDigit]
  tauto

theorem inClass_partChar (c : Char) : InClass partChar c ↔ IsLetter c ∨ IsDigit c ∨ c = '_' ∨ c = '-' := by
  rw [partChar, inClass_cons, inClass_cons, inClass_cons, inClass_cons, inClass_single, IsLetter, IsDigit,
    ← le_antisymm_iff, eq_comm]
  tauto

/-- What the first group can read. -/
def nameWords : Language Char := letters (InClass nameStart) * (letters (InClass nameChar))∗

def partWords : Language Char := letters (InClass partChar) * (letters (InClass partChar))∗

/-- What the second group can read. -/
def pathWords : Language Char := (letters (InClass [('.', '.')]) * partWords)∗

theorem mem_nameWords {name : String} : name.toList ∈ nameWords ↔ IsIdentifier name := by
  simp only [nameWords, mem_letters_mul_kstar, inClass_nameStart, inClass_nameChar, IsIdentifier]

theorem mem_partWords {part : String} : part.toList ∈ partWords ↔ IsSegment part := by
  simp only [partWords, mem_letters_mul_kstar, inClass_partChar, IsSegment, ← String.toList_eq_nil_iff.not]
  cases part.toList <;> simp

theorem mem_pathWords {word : String} :
    word.toList ∈ pathWords ↔ ∃ path, (∀ part ∈ path, IsSegment part) ∧ word = dotted path := by
  rw [pathWords, Language.mem_kstar]
  constructor
  · rintro ⟨rounds, hword, hrounds⟩
    induction rounds generalizing word with
    | nil => exact ⟨[], List.forall_mem_nil _, String.toList_inj.mp hword⟩
    | cons round rounds ih =>
      obtain ⟨hround, hmore⟩ := List.forall_mem_cons.mp hrounds
      obtain ⟨_, ⟨c, hc, rfl⟩, part, hpart, rfl⟩ := Language.mem_mul.mp hround
      obtain rfl := (inClass_single _ _).mp hc
      obtain ⟨path, hpath, hrest⟩ := ih String.toList_ofList hmore
      have hsegment : IsSegment (String.ofList part) := mem_partWords.mp (String.toList_ofList ▸ hpart)
      refine ⟨String.ofList part :: path, List.forall_mem_cons.mpr ⟨hsegment, hpath⟩, String.toList_inj.mp ?_⟩
      rw [hword, toList_dotted, List.flatMap_cons, ← toList_dotted, ← hrest]
      simp
  · rintro ⟨path, hpath, rfl⟩
    refine ⟨path.map fun part => '.' :: part.toList, by rw [toList_dotted, List.flatMap_def], ?_⟩
    refine List.forall_mem_map.mpr fun part hpart => ?_
    have hdot : ['.'] ∈ letters (InClass [('.', '.')]) := ⟨'.', (inClass_single _ _).mpr rfl, rfl⟩
    exact Language.append_mem_mul hdot (mem_partWords.mpr (hpath part hpart))

/-- From the beginning of a text the pattern reads a dollar sign, a name and a path, and with them all of the text. -/
theorem mem_ways_pattern {cs : List Char} {after : Scan} :
    after ∈ pattern.ways { pos := 0, rest := cs } ↔ ∃ name ∈ nameWords, ∃ path ∈ pathWords,
      cs = '$' :: (name ++ path) ∧ after = ⟨cs.length, [], [(2, path), (1, name)]⟩ := by
  have hname := (spells_oneOf nameStart).seq (spells_oneOf nameChar).many
  have hpart := (spells_oneOf partChar).seq (spells_oneOf partChar).many
  have hpath := ((spells_oneOf [('.', '.')]).seq hpart).many
  rw [pattern]
  simp only [mem_ways_seq, mem_ways_start, mem_ways_oneOf, mem_ways_stop, hname.mem_group, hpath.mem_group]
  constructor
  · rintro ⟨_, ⟨-, rfl⟩, r1, ⟨c, hc, h1⟩, _, ⟨name, hname, r2, h2, rfl⟩, _, ⟨path, hpath, r3, h3, rfl⟩, hend, rfl⟩
    obtain rfl := (inClass_single _ _).mp hc
    have hrest : r3.rest = [] := hend
    have hcs : cs = ['$'] ++ (name ++ (path ++ r3.rest)) := by
      rw [← h3.rest, ← h2.rest]
      exact h1.rest
    rw [hrest, List.append_nil] at hcs
    have hpos : r3.pos = cs.length := by
      rw [h3.pos, h2.pos, h1.pos, hcs, List.length_append, List.length_append, Nat.zero_add, Nat.add_assoc]
    exact ⟨name, hname, path, hpath, hcs, by rw [hpos, h1.captured, hend]⟩
  · rintro ⟨name, hname, path, hpath, rfl, rfl⟩
    have hsign : Scan.Takes ⟨0, '$' :: (name ++ path), []⟩ ['$'] ⟨1, name ++ path, []⟩ := ⟨rfl, rfl, rfl⟩
    have hfirst : Scan.Takes ⟨1, name ++ path, []⟩ name ⟨1 + name.length, path, []⟩ := ⟨rfl, rfl, rfl⟩
    have hsecond : Scan.Takes ⟨1 + name.length, path, [(1, name)]⟩ path
        ⟨1 + name.length + path.length, [], [(1, name)]⟩ := ⟨(List.append_nil path).symm, rfl, rfl⟩
    have hlength : ('$' :: (name ++ path)).length = 1 + name.length + path.length := by
      rw [List.length_cons, List.length_append]
      omega
    rw [hlength]
    exact ⟨_, ⟨trivial, rfl⟩, _, ⟨'$', (inClass_single _ _).mpr rfl, hsign⟩, _, ⟨name, hname, _, hfirst, rfl⟩,
      _, ⟨path, hpath, _, hsecond, rfl⟩, rfl, rfl⟩

/-- What the pattern has read when it has taken the text of a reference. -/
def scan (r : Reference) : Scan where
  pos := ("$" ++ r.root ++ dotted r.path).toList.length
  rest := []
  captured := [(2, (dotted r.path).toList), (1, r.root.toList)]

theorem mem_ways_pattern_iff {text : String} {after : Scan} :
    after ∈ pattern.ways { pos := 0, rest := text.toList } ↔ ∃ r : Reference, r.WellFormed ∧
      text = "$" ++ r.root ++ dotted r.path ∧ after = r.scan := by
  have hchars (root dots : String) : ("$" ++ root ++ dots).toList = '$' :: (root.toList ++ dots.toList) := by simp
  rw [mem_ways_pattern]
  constructor
  · rintro ⟨name, hname, word, hword, htext, rfl⟩
    obtain ⟨root, rfl⟩ : ∃ root : String, name = root.toList := ⟨String.ofList name, String.toList_ofList.symm⟩
    obtain ⟨dots, rfl⟩ : ∃ dots : String, word = dots.toList := ⟨String.ofList word, String.toList_ofList.symm⟩
    obtain ⟨path, hpath, rfl⟩ := mem_pathWords.mp hword
    obtain rfl := String.toList_inj.mp (htext.trans (hchars _ _).symm)
    exact ⟨⟨root, path⟩, ⟨mem_nameWords.mp hname, hpath⟩, rfl, rfl⟩
  · rintro ⟨r, hr, rfl, rfl⟩
    exact ⟨_, mem_nameWords.mpr hr.root, _, mem_pathWords.mpr ⟨r.path, hr.path, rfl⟩, hchars _ _, rfl⟩

/-- The pattern is tied to the beginning of the text. -/
theorem findFrom_pattern {pos : Nat} (hpos : pos ≠ 0) (cs : List Char) : pattern.findFrom pos cs = none := by
  have hways {pos : Nat} (hpos : pos ≠ 0) (rest : List Char) : pattern.ways { pos, rest } = [] := by
    refine List.eq_nil_iff_forall_not_mem.mpr fun after hafter => ?_
    obtain ⟨_, hstart, -⟩ := mem_ways_seq.mp hafter
    exact hpos (mem_ways_start.mp hstart).1
  induction cs generalizing pos with
  | nil => rw [findFrom, hways hpos]; rfl
  | cons c cs ih => rw [findFrom, hways hpos, ih (Nat.succ_ne_zero pos)]; rfl

theorem find?_pattern (cs : List Char) : pattern.find? cs = (pattern.ways { pos := 0, rest := cs }).head? := by
  cases cs with
  | nil => rfl
  | cons c cs => rw [find?, findFrom, findFrom_pattern (by decide)]; cases (pattern.ways _).head? <;> rfl

/-- What is found at all is found at the beginning, and there is no other way to read it. -/
theorem find?_pattern_iff {text : String} {found : Scan} :
    pattern.find? text.toList = some found ↔ ∃ r : Reference, r.WellFormed ∧
      text = "$" ++ r.root ++ dotted r.path ∧ found = r.scan := by
  rw [find?_pattern]
  constructor
  · exact fun h => mem_ways_pattern_iff.mp (List.mem_of_head? h)
  · intro hfound
    obtain ⟨first, hfirst⟩ := Option.isSome_iff_exists.mp
      (List.isSome_head?.mpr (List.ne_nil_of_mem (mem_ways_pattern_iff.mpr hfound)))
    obtain ⟨r, hr, htext, rfl⟩ := hfound
    obtain ⟨r', hr', htext', rfl⟩ := mem_ways_pattern_iff.mp (List.mem_of_head? hfirst)
    obtain rfl := hr.eq_of_text_eq hr' (htext.symm.trans htext')
    exact hfirst

end

/-- What the groups have captured makes up the reference again. -/
theorem WellFormed.parse?_eq {r : Reference} (hr : r.WellFormed) :
    parse? ("$" ++ r.root ++ dotted r.path) = some r := by
  rw [parse?, find?_pattern_iff.mpr ⟨r, hr, rfl, rfl⟩]
  change some (Reference.mk (String.ofList r.root.toList) _) = _
  rw [String.ofList_toList]
  exact congrArg (some ∘ Reference.mk r.root) (filter_split_dotted hr.path)

/-- A text is read as a reference exactly if the reference is well-formed and the text is what it is put together to. -/
theorem parse?_eq_some_iff {text : String} {r : Reference} :
    parse? text = some r ↔ r.WellFormed ∧ text = "$" ++ r.root ++ dotted r.path := by
  constructor
  · intro h
    obtain ⟨found, hfound, -⟩ := Option.bind_eq_some_iff.mp h
    obtain ⟨r', hr', rfl, -⟩ := find?_pattern_iff.mp hfound
    obtain rfl := Option.some.inj (hr'.parse?_eq.symm.trans h)
    exact ⟨hr', rfl⟩
  · rintro ⟨hr, rfl⟩
    exact hr.parse?_eq

/-! ### Variables by their names -/

theorem parse?_variable_iff (name : String) : parse? ("$" ++ name) = some ⟨name, []⟩ ↔ IsIdentifier name := by
  rw [parse?_eq_some_iff]
  constructor
  · exact fun h => h.1.root
  · exact fun h => ⟨⟨h, List.forall_mem_nil _⟩, by simp [dotted]⟩

/-- The name of a variable after a dollar sign stands for the variable in every scope that has it, if and only if the
name is an identifier. -/
theorem resolves_variable_iff (name : String) :
    (∀ (scope : Scope) (v : Value), scope.get? name = some v → (Value.str ("$" ++ name)).resolve scope = .ok v) ↔
      IsIdentifier name := by
  constructor
  · intro hall
    let scope := Scope.empty.set name .null
    have hresolve := hall scope .null (Scope.get?_set_self _ _ _)
    rw [Value.resolve] at hresolve
    cases hparse : parse? ("$" ++ name) with
    | none =>
      rw [hparse] at hresolve
      cases hresolve
    | some r =>
      -- No other variable is defined in this scope, so the reference is to the one of that name.
      have hroot : name = r.root := by
        by_contra hne
        have hnone : scope.get? r.root = none := Scope.get?_set_of_ne hne _ _
        simp [hparse, resolve, Scope.lookup, hnone] at hresolve
      rw [hroot]
      exact (parse?_eq_some_iff.mp hparse).1.root
  · intro hname scope v hv
    rw [Value.resolve, (parse?_variable_iff name).mpr hname]
    simp [resolve, Scope.lookup, hv, Value.follow?]

/-- References are read exactly from what they are put together to: a dollar sign, an identifier, and segments with a
dot before each. Nothing is lost, so a reference is read from one text only, and the parts between the dots that are not
empty are the whole path. A variable can be referred to by its name if and only if the name is an identifier. -/
theorem reads_grammar :
    (∀ text r, parse? text = some r ↔ r.WellFormed ∧ text = "$" ++ r.root ++ dotted r.path) ∧
    (∀ text, (parse? text).isSome ↔ ∃ root path, IsIdentifier root ∧ (∀ part ∈ path, IsSegment part) ∧
      text = "$" ++ root ++ dotted path) ∧
    (∀ text other, (parse? text).isSome → parse? text = parse? other → text = other) ∧
    (∀ r : Reference, r.WellFormed →
      ((Text.split ['.'] (dotted r.path).toList).filter (!·.isEmpty)).map String.ofList = r.path) ∧
    ∀ name, (parse? ("$" ++ name) = some ⟨name, []⟩ ↔ IsIdentifier name) ∧
      ((∀ (scope : Scope) (v : Value), scope.get? name = some v →
        (Value.str ("$" ++ name)).resolve scope = .ok v) ↔ IsIdentifier name) := by
  refine ⟨fun text r => parse?_eq_some_iff, fun text => ?_, fun text other hsome hsame => ?_,
    fun r hr => filter_split_dotted hr.path, fun name => ⟨parse?_variable_iff name, resolves_variable_iff name⟩⟩
  · rw [Option.isSome_iff_exists]
    constructor
    · rintro ⟨r, hr⟩
      obtain ⟨hwell, htext⟩ := parse?_eq_some_iff.mp hr
      exact ⟨r.root, r.path, hwell.root, hwell.path, htext⟩
    · rintro ⟨root, path, hroot, hpath, htext⟩
      exact ⟨⟨root, path⟩, parse?_eq_some_iff.mpr ⟨⟨hroot, hpath⟩, htext⟩⟩
  · obtain ⟨r, hr⟩ := Option.isSome_iff_exists.mp hsome
    exact (parse?_eq_some_iff.mp hr).2.trans (parse?_eq_some_iff.mp (hsame ▸ hr)).2.symm

/-- A segment may begin with a digit or be a dash, which an identifier may not; a line break at the end is as much too
much as a dot. -/
theorem reads_grammar_dashed :
    let r : Reference := ⟨"_x1", ["0", "-", "a-b"]⟩
    r.WellFormed ∧ parse? "$_x1.0.-.a-b" = some r ∧
      ((Text.split ['.'] (dotted r.path).toList).filter (!·.isEmpty)).map String.ofList = r.path ∧
      (∀ other, parse? "$_x1.0.-.a-b" = parse? other → "$_x1.0.-.a-b" = other) ∧
      parse? "$_x1.0.\n" = none ∧ ¬ IsIdentifier "a-b" := by
  intro r
  obtain ⟨hiff, -, hinjective, hsegments, hnames⟩ := reads_grammar
  have hparse : parse? "$_x1.0.-.a-b" = some r := by decide
  have hwell := ((hiff _ r).mp hparse).1
  refine ⟨hwell, hparse, hsegments r hwell, fun other => hinjective _ other (by rw [hparse]; rfl), by decide, ?_⟩
  exact fun hname => absurd ((hnames "a-b").1.mpr hname) (by decide)

end Reference

end Pipewright
