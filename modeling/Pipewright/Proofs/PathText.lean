import Pipewright.Path

/-!
# Texts of paths

Paths are told, reported and compared as texts. Nothing is lost by that: each path has a text of its own, since the
keys and numbers in it end where a dot, a bracket or the text ends.
-/
namespace Pipewright

namespace Key

/-- What keys are made of, rather than what stands between the parts of a path. -/
def isPlain (c : Char) : Bool := c ≠ '.' && c ≠ '['

theorem isPlain_of_mem (k : Key) : ∀ c ∈ k.name.toList, isPlain c := by
  have hall : k.name.toList.all isPlain := by cases k <;> rfl
  exact List.all_eq_true.mp hall

theorem name_injective {k l : Key} (h : k.name = l.name) : k = l := by
  revert h
  cases k <;> cases l <;> decide

end Key

namespace Path

/-- A mark is not in the text of a number. -/
theorem notMem_toDigits {mark : Char} (h : mark.isDigit = false) (n : Nat) : mark ∉ Nat.toDigits 10 n := fun hmem =>
  Bool.eq_false_iff.mp h (Nat.isDigit_of_mem_toDigits (by decide) (by decide) hmem)

theorem toDigits_injective {m n : Nat} (h : Nat.toDigits 10 m = Nat.toDigits 10 n) : m = n := by
  have hnumber := congrArg (Nat.ofDigitChars 10 · 0) h
  simpa only [Nat.ofDigitChars_ten_toDigits] using hnumber

/-- A word that ends where a mark stands is found again, whatever comes behind it. -/
theorem append_inj_of_marks {plain : Char → Bool} {word other rest more : List Char} (hword : ∀ c ∈ word, plain c)
    (hother : ∀ c ∈ other, plain c) (hrest : rest.takeWhile plain = []) (hmore : more.takeWhile plain = [])
    (h : word ++ rest = other ++ more) : word = other ∧ rest = more := by
  have htaken := congrArg (List.takeWhile plain) h
  rw [List.takeWhile_append_of_pos hword, List.takeWhile_append_of_pos hother, hrest, hmore, List.append_nil,
    List.append_nil] at htaken
  exact ⟨htaken, List.append_cancel_left (htaken ▸ h)⟩

theorem suffixText_nil : (suffixText []).toList = [] := rfl

theorem suffixText_key (k : Key) (rest : Path) :
    (suffixText (.key k :: rest)).toList = '.' :: (k.name.toList ++ rest.suffixText.toList) := by
  simp [suffixText]

theorem suffixText_index (i : Nat) (rest : Path) :
    (suffixText (.index i :: rest)).toList = '[' :: (Nat.toDigits 10 i ++ ']' :: rest.suffixText.toList) := by
  simp [suffixText, Nat.repr_eq_ofList_toDigits]

theorem takeWhile_suffixText (path : Path) : path.suffixText.toList.takeWhile Key.isPlain = [] := by
  match path with
  | [] => rfl
  | .key k :: rest =>
    rw [suffixText_key]
    rfl
  | .index i :: rest =>
    rw [suffixText_index]
    rfl

theorem suffixText_injective {path other : Path} (h : path.suffixText = other.suffixText) : path = other := by
  induction path generalizing other with
  | nil =>
    match other with
    | [] => rfl
    | .key k :: rest => simpa [suffixText_nil, suffixText_key] using congrArg String.toList h
    | .index i :: rest => simpa [suffixText_nil, suffixText_index] using congrArg String.toList h
  | cons selector rest ih =>
    have hchars := congrArg String.toList h
    match selector, other with
    | .key k, [] => simp [suffixText_nil, suffixText_key] at hchars
    | .index i, [] => simp [suffixText_nil, suffixText_index] at hchars
    | .key k, .index j :: more => simp [suffixText_key, suffixText_index] at hchars
    | .index i, .key l :: more => simp [suffixText_key, suffixText_index] at hchars
    | .key k, .key l :: more =>
      rw [suffixText_key, suffixText_key] at hchars
      obtain ⟨hname, hrest⟩ := append_inj_of_marks k.isPlain_of_mem l.isPlain_of_mem (takeWhile_suffixText rest)
        (takeWhile_suffixText more) (List.cons.inj hchars).2
      rw [Key.name_injective (String.toList_inj.mp hname), ih (String.toList_inj.mp hrest)]
    | .index i, .index j :: more =>
      rw [suffixText_index, suffixText_index] at hchars
      have hdigits (n : Nat) : ∀ c ∈ Nat.toDigits 10 n, (c != ']') = true := fun c hc =>
        bne_iff_ne.mpr fun hmark => notMem_toDigits (by decide) n (hmark ▸ hc)
      obtain ⟨hnumber, hrest⟩ := append_inj_of_marks (hdigits i) (hdigits j) rfl rfl (List.cons.inj hchars).2
      rw [toDigits_injective hnumber, ih (String.toList_inj.mp (List.cons.inj hrest).2)]

/-- A text begins with a key or with a number, and tells which. -/
theorem text_ne_of_key_index (k : Key) (rest more : Path) (i : Nat) :
    text (.key k :: rest) ≠ text (.index i :: more) := by
  intro h
  have hchars := congrArg String.toList h
  simp only [text, String.toList_append] at hchars
  cases k <;> simp [Key.name] at hchars

/-- Each path has a text of its own. -/
theorem text_injective {path other : Path} (h : path.text = other.text) : path = other := by
  match path, other with
  | [], [] => rfl
  | [], .key l :: more => cases l <;> simp [text, Key.name] at h
  | .key k :: rest, [] => cases k <;> simp [text, Key.name] at h
  | [], .index j :: more => simp [text] at h
  | .index i :: rest, [] => simp [text] at h
  | .key k :: rest, .index j :: more => exact absurd h (text_ne_of_key_index k rest more j)
  | .index i :: rest, .key l :: more => exact absurd h.symm (text_ne_of_key_index l more rest i)
  | .key k :: rest, .key l :: more =>
    refine suffixText_injective ?_
    simp only [text] at h
    rw [suffixText, suffixText, String.append_assoc, String.append_assoc, h]
  | .index i :: rest, .index j :: more => exact suffixText_injective h

theorem text_inj {path other : Path} : path.text = other.text ↔ path = other :=
  ⟨text_injective, congrArg text⟩

end Path

end Pipewright
