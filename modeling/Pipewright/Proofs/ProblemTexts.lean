import Pipewright.Proofs.PathText
import Pipewright.Validation

/-!
# Texts of findings

Findings are handed on as texts. Two problems never read the same: a message begins and ends with words of its own
kind of problem, and between them stands what the problem names. A path has no colon in it, so in the text of a
finding it ends where the first colon stands.
-/
namespace Pipewright

namespace Problem

/-! ### Messages -/

/-- The words that messages begin and end with, one pair for each kind of problem in the order of the kinds. A
message that names nothing is both its beginning and its end. -/
def frames : List (String × String) :=
  let whole (message : String) := (message, message)
  [whole "pipeline definition must be an object",
    ("'", "' must be a string"),
    ("'", "' must be an object"),
    ("limit '", "' must be a non-negative integer"),
    whole "pipeline must define a 'steps' list",
    whole "pipeline 'steps' must not be empty",
    whole "'steps' must be a list",
    ("steps nest deeper than the maximum of ", ""),
    whole "step must be an object",
    whole "step is missing 'type'",
    ("unknown step type '", "'"),
    ("step type must be a string, got ", ""),
    ("missing required field '", "'"),
    whole "ability name must not be empty",
    ("'", "' must contain at least one step"),
    ("'", "' must be a list of steps"),
    whole "condition must be an object or a list",
    whole "condition needs 'field', 'and', 'or' or 'not'",
    whole "'and'/'or' must be a list of conditions",
    ("unknown transform '", "'"),
    ("unknown operator '", "'"),
    whole "parallel step has no branches"]

/-- A text that begins and ends with these words. -/
def Fits (text : String) (frame : String × String) : Prop :=
  frame.1.toList <+: text.toList ∧ frame.2.toList <:+ text.toList

/-- Frames that no text fits both of, as the beginning or the end of one is never that of the other. -/
def Clash (frame other : String × String) : Prop :=
  ¬ frame.1.toList <+: other.1.toList ∧ ¬ other.1.toList <+: frame.1.toList ∨
    ¬ frame.2.toList <:+ other.2.toList ∧ ¬ other.2.toList <:+ frame.2.toList

instance : DecidableRel Clash := fun _ _ => inferInstanceAs (Decidable (_ ∨ _))

theorem frames_clash : frames.Pairwise Clash := by decide +kernel

theorem Fits.not_clash {text : String} {frame other : String × String} (h : Fits text frame)
    (hother : Fits text other) : ¬ Clash frame other := by
  rintro (⟨hleft, hright⟩ | ⟨hleft, hright⟩)
  · exact (List.prefix_or_prefix_of_prefix h.1 hother.1).elim hleft hright
  · exact (List.suffix_or_suffix_of_suffix h.2 hother.2).elim hleft hright

theorem fits_self (text : String) : Fits text (text, text) := ⟨List.prefix_rfl, List.suffix_rfl⟩

theorem fits_opening (opening detail : String) : Fits (opening ++ detail) (opening, "") := by
  refine ⟨?_, List.nil_suffix⟩
  rw [String.toList_append]
  exact List.prefix_append _ _

theorem fits_enclosed (opening detail closing : String) :
    Fits (opening ++ detail ++ closing) (opening, closing) := by
  constructor
  · rw [String.toList_append, String.toList_append, List.append_assoc]
    exact List.prefix_append _ _
  · rw [String.toList_append]
    exact List.suffix_append _ _

theorem message_fits (p : Problem) : ∃ frame, frames[p.ctorIdx]? = some frame ∧ Fits p.message frame := by
  cases p
  case notText name | notObject name | limitNotNatural name | unknownType name | missing name | emptyList name |
      notStepList name | unknownTransform name | unknownOperator name =>
    exact ⟨_, rfl, fits_enclosed _ _ _⟩
  case tooDeep maximum | typeNotText found => exact ⟨_, rfl, fits_opening _ _⟩
  all_goals exact ⟨_, rfl, fits_self _⟩

/-- Messages that read the same would fit two frames if their problems were of two kinds. -/
theorem not_lt_of_message_eq {p q : Problem} (h : p.message = q.message) : ¬ p.ctorIdx < q.ctorIdx := by
  intro hlt
  obtain ⟨frame, hframe, hfits⟩ := message_fits p
  obtain ⟨other, hother, hfitsOther⟩ := message_fits q
  obtain ⟨hp, rfl⟩ := List.getElem?_eq_some_iff.mp hframe
  obtain ⟨hq, rfl⟩ := List.getElem?_eq_some_iff.mp hother
  exact (h ▸ hfits).not_clash hfitsOther (List.pairwise_iff_getElem.mp frames_clash _ _ hp hq hlt)

theorem opening_inj {opening detail other : String} (h : opening ++ detail = opening ++ other) : detail = other := by
  simpa using h

theorem enclosed_inj {opening detail other closing : String}
    (h : opening ++ detail ++ closing = opening ++ other ++ closing) : detail = other := by
  simpa using h

/-- Two problems never read the same. -/
theorem message_injective {p q : Problem} (h : p.message = q.message) : p = q := by
  have hkind : p.ctorIdx = q.ctorIdx :=
    Nat.le_antisymm (Nat.not_lt.mp (not_lt_of_message_eq h.symm)) (Nat.not_lt.mp (not_lt_of_message_eq h))
  cases p <;> cases q <;> cases hkind
  case notText.notText | notObject.notObject | limitNotNatural.limitNotNatural | unknownType.unknownType |
      missing.missing | emptyList.emptyList | notStepList.notStepList | unknownTransform.unknownTransform |
      unknownOperator.unknownOperator =>
    exact congrArg _ (enclosed_inj h)
  case typeNotText.typeNotText found other => exact congrArg _ (opening_inj h)
  case tooDeep.tooDeep maximum other =>
    have hdigits : (toString maximum).toList = (toString other).toList := congrArg String.toList (opening_inj h)
    simp only [Nat.toString_eq_repr, Nat.toList_repr] at hdigits
    exact congrArg tooDeep (Path.toDigits_injective hdigits)
  all_goals rfl

end Problem

/-! ### Paths in front of messages -/

theorem Key.colon_notMem (k : Key) : ':' ∉ k.name.toList := by
  cases k <;> decide

namespace Path

theorem colon_notMem_suffixText (path : Path) : ':' ∉ path.suffixText.toList := by
  induction path with
  | nil => simp [suffixText_nil]
  | cons selector rest ih =>
    cases selector with
    | key k =>
      rw [suffixText_key]
      simp [k.colon_notMem, ih]
    | index i =>
      rw [suffixText_index]
      simp [notMem_toDigits, ih]

theorem colon_notMem_text (path : Path) : ':' ∉ path.text.toList := by
  match path with
  | [] => simp [text]
  | .key k :: rest => simp [text, k.colon_notMem, colon_notMem_suffixText rest]
  | .index i :: rest => exact colon_notMem_suffixText (.index i :: rest)

end Path

namespace Finding

/-- The first colon in the text of a finding ends its path: where there is no path, there is no colon. -/
def EndsPath (finding : Finding) : Prop := finding.path = [] → ':' ∉ finding.problem.message.toList

theorem text_of_nil {finding : Finding} (h : finding.path = []) : finding.text = finding.problem.message := by
  simp [text, h]

theorem text_of_ne_nil {path : Path} (h : path ≠ []) (problem : Problem) :
    text ⟨path, problem⟩ = path.text ++ ": " ++ problem.message := by
  rw [text, if_neg (mt List.isEmpty_iff.mp h)]

theorem toList_text {finding : Finding} (h : finding.path ≠ []) :
    finding.text.toList = finding.path.text.toList ++ ':' :: ' ' :: finding.problem.message.toList :=
  (congrArg String.toList (text_of_ne_nil h finding.problem)).trans (by simp)

theorem colon_notMem_text_iff {finding : Finding} (h : finding.EndsPath) :
    ':' ∉ finding.text.toList ↔ finding.path = [] := by
  constructor
  · intro hcolon
    by_cases hnil : finding.path = []
    · exact hnil
    · exact absurd (by simp [toList_text hnil]) hcolon
  · intro hnil
    rw [text_of_nil hnil]
    exact h hnil

/-- Findings are told apart by their texts. -/
theorem text_injective {f g : Finding} (hf : f.EndsPath) (hg : g.EndsPath) (h : f.text = g.text) : f = g := by
  have hempty : f.path = [] ↔ g.path = [] := by
    rw [← colon_notMem_text_iff hf, ← colon_notMem_text_iff hg, h]
  suffices hparts : f.path = g.path ∧ f.problem = g.problem by
    obtain ⟨path, problem⟩ := f
    obtain ⟨rfl, rfl⟩ := hparts
    rfl
  by_cases hnil : f.path = []
  · have hother : g.path = [] := hempty.mp hnil
    rw [text_of_nil hnil, text_of_nil hother] at h
    exact ⟨hnil.trans hother.symm, Problem.message_injective h⟩
  · have hplain (path : Path) : ∀ c ∈ path.text.toList, (c != ':') = true := fun c hc =>
      bne_iff_ne.mpr fun hcolon => path.colon_notMem_text (hcolon ▸ hc)
    have hchars := congrArg String.toList h
    rw [toList_text hnil, toList_text (hnil ∘ hempty.mpr)] at hchars
    obtain ⟨hpath, hrest⟩ := Path.append_inj_of_marks (hplain f.path) (hplain g.path) rfl rfl hchars
    simp only [List.cons.injEq, true_and] at hrest
    exact ⟨Path.text_injective (String.toList_inj.mp hpath), Problem.message_injective (String.toList_inj.mp hrest)⟩

end Finding

end Pipewright
