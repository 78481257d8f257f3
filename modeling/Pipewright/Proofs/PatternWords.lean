import Mathlib.Computability.Language
import Pipewright.Text.Pattern

/-!
# The words of a pattern

A pattern without groups and anchors takes a word of its language off the text, and every word of the language that the
text begins with can be taken. A class of characters, two patterns one after the other and a repetition each have the
language that is expected; the bound on the rounds of a repetition is never felt. A group takes the same words as the
pattern inside it, and captures them.
-/
namespace Pipewright.Text

open Computability

/-- A word is taken off the text, and nothing else happens. -/
structure Scan.Takes (r : Scan) (word : List Char) (after : Scan) : Prop where
  rest : r.rest = word ++ after.rest
  pos : after.pos = r.pos + word.length
  captured : after.captured = r.captured

namespace Scan.Takes

variable {r after last : Scan} {word more : List Char}

theorem refl (r : Scan) : r.Takes [] r := ⟨rfl, rfl, rfl⟩

theorem eq_of_nil (h : r.Takes [] after) : after = r := by
  obtain ⟨hrest, hpos, hcaptured⟩ := h
  cases r
  cases after
  simp_all

theorem trans (h : r.Takes word after) (hmore : after.Takes more last) : r.Takes (word ++ more) last where
  rest := by rw [h.rest, hmore.rest, List.append_assoc]
  pos := by rw [hmore.pos, h.pos, List.length_append, Nat.add_assoc]
  captured := hmore.captured.trans h.captured

/-- There is a scan between the two words. -/
theorem split (h : r.Takes (word ++ more) last) : ∃ after, r.Takes word after ∧ after.Takes more last := by
  refine ⟨⟨r.pos + word.length, more ++ last.rest, r.captured⟩, ⟨?_, rfl, rfl⟩, ⟨rfl, ?_, h.captured⟩⟩
  · rw [h.rest, List.append_assoc]
  · rw [h.pos, List.length_append, Nat.add_assoc]

theorem take_rest (h : r.Takes word after) : r.rest.take (after.pos - r.pos) = word := by
  rw [h.pos, Nat.add_sub_cancel_left, h.rest, List.take_left]

theorem pos_lt_iff (h : r.Takes word after) : r.pos < after.pos ↔ word ≠ [] := by
  rw [h.pos, Nat.lt_add_right_iff_pos, List.length_pos_iff]

theorem length_rest (h : r.Takes word after) : r.rest.length = word.length + after.rest.length := by
  rw [h.rest, List.length_append]

end Scan.Takes

namespace Pattern

variable {p q : Pattern} {L M : Language Char} {r after : Scan}

/-- The ways to read on by a pattern are those that take a word of a language off the text. -/
def Spells (p : Pattern) (L : Language Char) : Prop :=
  ∀ r after, after ∈ p.ways r ↔ ∃ word ∈ L, r.Takes word after

/-- The words of one character. -/
def letters (P : Char → Prop) : Language Char := {word | ∃ c, P c ∧ word = [c]}

theorem mem_kstar_letters {P : Char → Prop} {word : List Char} : word ∈ (letters P)∗ ↔ ∀ c ∈ word, P c := by
  constructor
  · intro h
    obtain ⟨words, rfl, hwords⟩ := Language.mem_kstar.mp h
    intro c hc
    obtain ⟨word, hword, hmem⟩ := List.mem_flatten.mp hc
    obtain ⟨d, hd, rfl⟩ := hwords word hword
    rwa [List.mem_singleton.mp hmem]
  · intro h
    have hflat : word = (word.map fun c => [c]).flatten := by
      rw [← List.flatMap_def, List.flatMap_singleton']
    exact Language.mem_kstar.mpr ⟨_, hflat, List.forall_mem_map.mpr fun c hc => ⟨c, h c hc, rfl⟩⟩

/-- The characters of a class. -/
def InClass (ranges : List (Char × Char)) (c : Char) : Prop := ∃ range ∈ ranges, range.1 ≤ c ∧ c ≤ range.2

theorem inClass_nil (c : Char) : ¬ InClass [] c := fun ⟨_, hrange, _⟩ => List.not_mem_nil hrange

theorem inClass_cons {low high c : Char} {ranges : List (Char × Char)} :
    InClass ((low, high) :: ranges) c ↔ low ≤ c ∧ c ≤ high ∨ InClass ranges c := List.exists_mem_cons_iff _ _ _

theorem mem_ways_oneOf {ranges : List (Char × Char)} :
    after ∈ (oneOf ranges).ways r ↔ ∃ c, InClass ranges c ∧ r.Takes [c] after := by
  obtain ⟨pos, rest, captured⟩ := r
  cases rest with
  | nil =>
    refine iff_of_false List.not_mem_nil ?_
    rintro ⟨c, -, htakes⟩
    cases htakes.rest
  | cons d rest =>
    have hany : (ranges.any fun range => range.1 ≤ d && d ≤ range.2) ↔ InClass ranges d := by simp [InClass]
    have hways : after ∈ (oneOf ranges).ways ⟨pos, d :: rest, captured⟩ ↔
        InClass ranges d ∧ after = ⟨pos + 1, rest, captured⟩ := by
      rw [ways, List.mem_ite_nil_right, hany, List.mem_singleton]
    rw [hways]
    constructor
    · rintro ⟨hd, rfl⟩
      exact ⟨d, hd, rfl, rfl, rfl⟩
    · rintro ⟨c, hc, hrest, hpos, hcaptured⟩
      obtain ⟨hd, hleft⟩ := List.cons.inj hrest
      cases after
      simp_all

/-- A character, and then any number of others. -/
theorem mem_letters_mul_kstar {P Q : Char → Prop} {word : List Char} :
    word ∈ letters P * (letters Q)∗ ↔ ∃ c cs, word = c :: cs ∧ P c ∧ ∀ d ∈ cs, Q d := by
  rw [Language.mem_mul]
  constructor
  · rintro ⟨_, ⟨c, hc, rfl⟩, cs, hcs, rfl⟩
    exact ⟨c, cs, rfl, hc, mem_kstar_letters.mp hcs⟩
  · rintro ⟨c, cs, rfl, hc, hcs⟩
    exact ⟨[c], ⟨c, hc, rfl⟩, cs, mem_kstar_letters.mpr hcs, rfl⟩

theorem spells_oneOf (ranges : List (Char × Char)) : (oneOf ranges).Spells (letters (InClass ranges)) := by
  intro r after
  rw [mem_ways_oneOf]
  constructor
  · exact fun ⟨c, hc, htakes⟩ => ⟨[c], ⟨c, hc, rfl⟩, htakes⟩
  · rintro ⟨word, ⟨c, hc, rfl⟩, htakes⟩
    exact ⟨c, hc, htakes⟩

theorem mem_ways_start : after ∈ start.ways r ↔ r.pos = 0 ∧ after = r := by
  rw [ways, List.mem_ite_nil_right, List.mem_singleton]

theorem mem_ways_stop : after ∈ stop.ways r ↔ r.rest = [] ∧ after = r := by
  rw [ways, List.mem_ite_nil_right, List.mem_singleton, List.isEmpty_iff]

theorem mem_ways_seq : after ∈ (seq p q).ways r ↔ ∃ r' ∈ p.ways r, after ∈ q.ways r' := List.mem_flatMap

theorem Spells.seq (hp : p.Spells L) (hq : q.Spells M) : (seq p q).Spells (L * M) := by
  intro r after
  rw [mem_ways_seq]
  constructor
  · rintro ⟨r', hr', hafter⟩
    obtain ⟨word, hword, htakes⟩ := (hp r r').mp hr'
    obtain ⟨more, hmore, htakes'⟩ := (hq r' after).mp hafter
    exact ⟨word ++ more, Language.append_mem_mul hword hmore, htakes.trans htakes'⟩
  · rintro ⟨both, hboth, htakes⟩
    obtain ⟨word, hword, more, hmore, rfl⟩ := Language.mem_mul.mp hboth
    obtain ⟨r', hfirst, hsecond⟩ := htakes.split
    exact ⟨r', (hp r r').mpr ⟨word, hword, hfirst⟩, (hq r' after).mpr ⟨more, hmore, hsecond⟩⟩

theorem append_mem_kstar {word more : List Char} (hword : word ∈ L) (hmore : more ∈ L∗) : word ++ more ∈ L∗ := by
  rw [← Language.one_add_self_mul_kstar_eq_kstar]
  exact .inr (Language.append_mem_mul hword hmore)

/-- By induction on the bound: each round takes a word that is not empty, so what is left is shorter. -/
theorem Spells.mem_rounds (hp : p.Spells L) {n : Nat} (hn : r.rest.length ≤ n) :
    after ∈ rounds p.ways n r ↔ ∃ word ∈ L∗, r.Takes word after := by
  induction n generalizing r with
  | zero =>
    have hnil : r.rest = [] := List.eq_nil_of_length_eq_zero (Nat.le_zero.mp hn)
    rw [rounds, List.mem_singleton]
    constructor
    · rintro rfl
      exact ⟨[], Language.nil_mem_kstar L, .refl _⟩
    · rintro ⟨word, -, htakes⟩
      have hword : word = [] := (List.append_eq_nil_iff.mp (htakes.rest.symm.trans hnil)).1
      exact (hword ▸ htakes).eq_of_nil
  | succ n ih =>
    rw [rounds, List.mem_append, List.mem_flatMap, List.mem_singleton]
    constructor
    · rintro (⟨r', hr', hafter⟩ | rfl)
      · obtain ⟨hway, hlater⟩ := List.mem_filter.mp hr'
        obtain ⟨word, hword, htakes⟩ := (hp r r').mp hway
        have hne := htakes.pos_lt_iff.mp (of_decide_eq_true hlater)
        have hleft := htakes.length_rest
        have hlength := List.length_pos_iff.mpr hne
        obtain ⟨more, hmore, htakes'⟩ := (ih (by omega)).mp hafter
        exact ⟨word ++ more, append_mem_kstar hword hmore, htakes.trans htakes'⟩
      · exact ⟨[], Language.nil_mem_kstar L, .refl _⟩
    · rintro ⟨word, hword, htakes⟩
      obtain ⟨words, rfl, hwords⟩ := Language.mem_kstar_iff_exists_nonempty.mp hword
      cases words with
      | nil => exact .inr htakes.eq_of_nil
      | cons first words =>
        obtain ⟨⟨hfirst, hne⟩, hmore⟩ := List.forall_mem_cons.mp hwords
        obtain ⟨r', hr', hafter⟩ := htakes.split
        have hleft := hr'.length_rest
        have hlength := List.length_pos_iff.mpr hne
        refine .inl ⟨r', List.mem_filter.mpr ⟨(hp r r').mpr ⟨first, hfirst, hr'⟩, ?_⟩, ?_⟩
        · exact decide_eq_true (hr'.pos_lt_iff.mpr hne)
        · exact (ih (by omega)).mpr ⟨_, Language.join_mem_kstar fun y hy => (hmore y hy).1, hafter⟩

theorem Spells.many (hp : p.Spells L) : (many p).Spells L∗ := fun _ _ => hp.mem_rounds le_rfl

theorem Spells.mem_group (hp : p.Spells L) {number : Nat} :
    after ∈ (group number p).ways r ↔ ∃ word ∈ L, ∃ r', r.Takes word r' ∧
      after = { r' with captured := (number, word) :: r.captured } := by
  rw [ways, List.mem_map]
  constructor
  · rintro ⟨r', hr', rfl⟩
    obtain ⟨word, hword, htakes⟩ := (hp r r').mp hr'
    exact ⟨word, hword, r', htakes, by rw [htakes.take_rest, htakes.captured]⟩
  · rintro ⟨word, hword, r', htakes, rfl⟩
    exact ⟨r', (hp r r').mpr ⟨word, hword, htakes⟩, by rw [htakes.take_rest, htakes.captured]⟩

end Pattern

end Pipewright.Text
