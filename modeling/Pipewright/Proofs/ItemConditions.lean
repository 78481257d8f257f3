import Pipewright.Proofs.DefinitionRoundTrip
import Pipewright.Proofs.ReferenceGrammar
import Pipewright.Transforms.Catalog

/-!
# Filtering is a condition on each item

The transform that filters judges an item by a dotted field, an operator and a value. A comparison of a conditional step
does the same where the item is a variable, and the field a reference that begins with it. Both come to the same
verdict, also where the field is missing or where no operator is given, and they ask in vain for the same operators.
-/
namespace Pipewright

namespace Reference

/-- The parts between the dots of a field can be those of a path: none is empty, and all consist of ASCII letters,
digits, `_` and `-`. -/
def IsDotted (field : String) : Prop := ∀ part ∈ Value.fieldPath field, IsSegment part

/-- The text that refers to a field of the variable `item`, or to the variable itself. -/
def textOfField : Option String → String
  | none => "$item"
  | some field => "$item." ++ field

/-- The names on the way from an item to its field. -/
def pathOfField (field : Option String) : List String := (field.map Value.fieldPath).getD []

theorem wellFormed_field {field : Option String} (h : ∀ f ∈ field, IsDotted f) :
    WellFormed ⟨"item", pathOfField field⟩ where
  root := (parse?_variable_iff "item").mp (by decide)
  path := by
    cases field with
    | none => exact List.forall_mem_nil _
    | some field => exact h field rfl

/-- The parts of a field make it up again, with a dot before each and so one in front of the field. -/
theorem dotted_fieldPath (field : String) : dotted (Value.fieldPath field) = "." ++ field := by
  have hfield : ['.'].intercalate ((Value.fieldPath field).map String.toList) = field.toList := by
    rw [Value.fieldPath, Text.map_toList_ofList]
    exact Text.intercalate_splitFrom (by decide) none 0 field.toList
  have hne : (Value.fieldPath field).map String.toList ≠ [] := by
    rw [Value.fieldPath, Text.map_toList_ofList]
    exact Text.splitFrom_ne_nil _ _ _ _
  have hdotted : (dotted (Value.fieldPath field)).toList = '.' :: field.toList := by
    rw [← hfield, ← List.singleton_append, ← Text.intercalate_nil_cons hne]
    exact (intercalate_dot "" _).symm
  rw [← String.toList_inj, hdotted, String.toList_append]
  rfl

theorem textOfField_eq (field : Option String) : textOfField field = "$" ++ "item" ++ dotted (pathOfField field) := by
  cases field with
  | none => rfl
  | some field =>
    rw [pathOfField, Option.map_some, Option.getD_some, dotted_fieldPath, ← String.append_assoc]
    rfl

theorem parse?_textOfField {field : Option String} (h : ∀ f ∈ field, IsDotted f) :
    parse? (textOfField field) = some ⟨"item", pathOfField field⟩ :=
  parse?_eq_some_iff.mpr ⟨wellFormed_field h, textOfField_eq field⟩

end Reference

namespace Condition

/-- The comparison of an item, or of its field, with the variable `w`. Without an operator none is written. -/
def ofItem (field operator : Option String) : Value :=
  .obj ([("field", .str (Reference.textOfField field))] ++ optionalText "operator" operator ++ [("value", .str "$w")])

/-- The variables under which an item is judged. -/
def itemScope (item w : Value) : Scope := .ofValue (.obj [("item", item), ("w", w)])

theorem itemScope_item (item w : Value) : (itemScope item w).get? "item" = some item := by
  simp [itemScope, Scope.ofValue, Scope.ofFields, Scope.get?, Value.fields?, Fields.get?]

theorem itemScope_w (item w : Value) : (itemScope item w).get? "w" = some w := by
  simp [itemScope, Scope.ofValue, Scope.ofFields, Scope.get?, Value.fields?, Fields.get?]

theorem decode_ofItem (field operator : Option String) :
    decode (ofItem field operator) =
      .ok (.compare ⟨.str (Reference.textOfField field), operator.getD "not_empty", .str "$w"⟩) := by
  cases operator <;> rfl

theorem resolve_field {field : Option String} (h : ∀ f ∈ field, Reference.IsDotted f) (item w : Value) :
    (Value.str (Reference.textOfField field)).resolve (itemScope item w) = .ok (Transforms.keyOf field item) := by
  rw [Value.resolve, Reference.parse?_textOfField h]
  simp only [Reference.resolve, Scope.lookup, itemScope_item]
  cases field <;> rfl

theorem resolve_w (item w : Value) : (Value.str "$w").resolve (itemScope item w) = .ok w := by
  have hparse : Reference.parse? "$w" = some ⟨"w", []⟩ := by decide
  rw [Value.resolve, hparse]
  simp only [Reference.resolve, Scope.lookup, itemScope_w]
  rfl

/-- The comparison is made between the field of the item and the value. -/
theorem evaluate_ofItem {field : Option String} (h : ∀ f ∈ field, Reference.IsDotted f) (operator : Option String)
    (item w : Value) :
    evaluate (itemScope item w)
        (.compare ⟨.str (Reference.textOfField field), operator.getD "not_empty", .str "$w"⟩) =
      Operator.evaluate (operator.getD "not_empty") (Transforms.keyOf field item) w := by
  rw [evaluate, Comparison.evaluate, resolve_field h, resolve_w]
  rfl

end Condition

namespace Transforms

/-! ### Keeping items -/

theorem keepWhere_of_ok {test : Value → Except Fault Bool} {holds : Value → Bool} {items : List Value}
    (h : ∀ item ∈ items, test item = .ok (holds item)) : keepWhere test items = .ok (items.filter holds) := by
  induction items with
  | nil => rfl
  | cons item rest ih =>
    rw [keepWhere, h item List.mem_cons_self, ih fun other hother => h other (List.mem_cons_of_mem _ hother)]
    by_cases hitem : holds item
    · rw [List.filter_cons_of_pos hitem, hitem]
      rfl
    · rw [List.filter_cons_of_neg hitem, Bool.eq_false_iff.mpr hitem]
      rfl

theorem keepWhere_of_error {test : Value → Except Fault Bool} {fault : Fault} {item : Value} {rest : List Value}
    (h : test item = .error fault) : keepWhere test (item :: rest) = .error fault := by
  rw [keepWhere, h]
  rfl

/-- Without an operator a value passes if it is not empty. -/
theorem passes_eq (operator : Option String) (w v : Value) :
    passes operator w v = match Operator.parse? (operator.getD "not_empty") with
      | some op => .ok (op.holds v w)
      | none => .error (.operator (operator.getD "not_empty")) := by
  cases operator <;> rfl

/-! ### The filter -/

/-- Parameters that filter by a field, an operator and a value. -/
def filterParams (field operator : Option String) (w : Value) : Params :=
  optionalText "field" field ++ optionalText "operator" operator ++ [("value", w)]

theorem filter_filterParams (field operator : Option String) (w : Value) (items : List Value) :
    filter (filterParams field operator w) items =
      keepWhere (fun item => passes operator w (keyOf field item)) items := by
  cases field <;> cases operator <;> rfl

theorem apply_filter (params : Params) (items : List Value) :
    Transform.filter.apply params (.arr items) = (filter params items).map .arr := by
  change (filter params items >>= fun kept => pure (Value.arr kept)) = _
  cases filter params items <;> rfl

/-- What the catalog answers to a request to filter by a field, an operator and a value. -/
def filtered (field operator : Option String) (w : Value) (items : List Value) : Except RunError Value :=
  Catalog.builtin.run "filter" (.arr items) (filterParams field operator w)

theorem filtered_eq (field operator : Option String) (w : Value) (items : List Value) :
    filtered field operator w items =
      ((keepWhere (fun item => passes operator w (keyOf field item)) items).map Value.arr).mapError
        (Fault.toError "filter") := by
  have hget : Fields.get? "filter" Transform.table = some .filter := by decide +kernel
  rw [filtered, Catalog.builtin, Catalog.run_of, hget, ← filter_filterParams, ← apply_filter]
  rfl

section

variable {field operator : Option String} {w : Value}

theorem filtered_of_known {op : Operator} (h : Operator.parse? (operator.getD "not_empty") = some op)
    (items : List Value) :
    filtered field operator w items = .ok (.arr (items.filter fun item => op.holds (keyOf field item) w)) := by
  rw [filtered_eq, keepWhere_of_ok fun item _ => by rw [passes_eq, h]]
  rfl

/-- An operator that is not there is asked for as soon as there is an item. -/
theorem filtered_of_unknown (h : Operator.parse? (operator.getD "not_empty") = none) (item : Value)
    (rest : List Value) :
    filtered field operator w (item :: rest) = .error (.unknownOperator (operator.getD "not_empty")) := by
  rw [filtered_eq, keepWhere_of_error (by rw [passes_eq, h])]
  rfl

end

/-! ### What an item is judged by -/

/-- Items are filtered as a verdict on each of them says: the result holds those whose verdict is true, in order, and
there is none if there are items and the verdict is an error, which it then is on any item. -/
structure FiltersBy (verdict : Value → Except RunError Bool) (filtered : List Value → Except RunError Value) :
    Prop where
  ok_iff : ∀ items result, filtered items = .ok result ↔
    (∀ item ∈ items, ∃ b, verdict item = .ok b) ∧
      result = .arr (items.filter fun item => verdict item matches .ok true)
  error_iff : ∀ items error, filtered items = .error error ↔ items ≠ [] ∧ ∀ item, verdict item = .error error
  alike : ∀ item other error, verdict item = .error error → verdict other = .error error

section

variable {verdict : Value → Except RunError Bool} {filtered : List Value → Except RunError Value}

theorem filtersBy_of_ok {holds : Value → Bool} (hverdict : ∀ item, verdict item = .ok (holds item))
    (hfiltered : ∀ items, filtered items = .ok (.arr (items.filter holds))) : FiltersBy verdict filtered where
  ok_iff items result := by
    have htrue : (fun item => verdict item matches .ok true) = holds := by
      funext item
      rw [hverdict]
      cases holds item <;> rfl
    rw [hfiltered, htrue]
    constructor
    · rintro ⟨⟩
      exact ⟨fun item _ => ⟨holds item, hverdict item⟩, rfl⟩
    · rintro ⟨-, rfl⟩
      rfl
  error_iff items error := by
    rw [hfiltered]
    constructor
    · exact nofun
    · rintro ⟨-, h⟩
      cases (hverdict .null).symm.trans (h .null)
  alike item other error h := by
    cases (hverdict item).symm.trans h

theorem filtersBy_of_error {error : RunError} (hverdict : ∀ item, verdict item = .error error)
    (hnil : filtered [] = .ok (.arr [])) (hcons : ∀ item rest, filtered (item :: rest) = .error error) :
    FiltersBy verdict filtered where
  ok_iff items result := by
    cases items with
    | nil =>
      rw [hnil]
      constructor
      · rintro ⟨⟩
        exact ⟨List.forall_mem_nil _, rfl⟩
      · rintro ⟨-, rfl⟩
        rfl
    | cons item rest =>
      rw [hcons]
      constructor
      · exact nofun
      · rintro ⟨h, -⟩
        obtain ⟨b, hb⟩ := h item List.mem_cons_self
        cases (hverdict item).symm.trans hb
  error_iff items other := by
    cases items with
    | nil =>
      rw [hnil]
      constructor
      · exact nofun
      · rintro ⟨h, -⟩
        exact absurd rfl h
    | cons item rest =>
      rw [hcons]
      constructor
      · rintro ⟨⟩
        exact ⟨List.cons_ne_nil item rest, hverdict⟩
      · rintro ⟨-, h⟩
        cases (hverdict item).symm.trans (h item)
        rfl
  alike item other error h := by
    cases (hverdict item).symm.trans h
    exact hverdict other

end

/-- Filtering by a dotted field, or by the items themselves, is a comparison on each item: one that refers to the item
as `$item`, to its field as `$item.field` and to the value as `$w`, and has the operator of the filter, if any. -/
theorem filter_eq_conditions (field operator : Option String) (hfield : ∀ f ∈ field, Reference.IsDotted f) (w : Value) :
    ∃ c, Condition.decode (Condition.ofItem field operator) = .ok c ∧
      FiltersBy (fun item => c.evaluate (Condition.itemScope item w)) (filtered field operator w) := by
  refine ⟨_, Condition.decode_ofItem field operator, ?_⟩
  have hverdict := fun item => Condition.evaluate_ofItem hfield operator item w
  cases hparse : Operator.parse? (operator.getD "not_empty") with
  | some op =>
    refine filtersBy_of_ok (fun item => ?_) (filtered_of_known hparse)
    rw [hverdict, Operator.evaluate, hparse]
  | none =>
    refine filtersBy_of_error (fun item => ?_) ?_ (filtered_of_unknown hparse)
    · rw [hverdict, Operator.evaluate, hparse]
    · rw [filtered_eq]
      rfl

/-- `tags.0` is the first item of an array under `tags`, the entry `0` of an object there, and missing otherwise. Two of
four items have a text there that starts with `w`; an operator that is not there fails for all of them. -/
theorem filter_eq_conditions_nested :
    let field : Option String := some "tags.0"
    let first : Value := .obj [("tags", .arr [.str "ab"])]
    let last : Value := .obj [("tags", .obj [("0", .str "ac")])]
    let items := [first, .null, .obj [("tags", .arr [])], last]
    (∀ f ∈ field, Reference.IsDotted f) ∧
      filtered field (some "starts_with") (.str "a") items = .ok (.arr [first, last]) ∧
      (∃ c, Condition.decode (Condition.ofItem field (some "starts_with")) = .ok c ∧
        [first, last] = items.filter fun item => c.evaluate (Condition.itemScope item (.str "a")) matches .ok true) ∧
      ∃ c, Condition.decode (Condition.ofItem field (some "resembles")) = .ok c ∧
        c.evaluate (Condition.itemScope .null (.str "a")) = .error (.unknownOperator "resembles") ∧
        filtered field (some "resembles") (.str "a") items = .error (.unknownOperator "resembles") := by
  intro field first last items
  have hfield : ∀ f ∈ field, Reference.IsDotted f := by
    intro f hf
    obtain rfl := Option.mem_some.mp hf
    unfold Reference.IsDotted
    decide +kernel
  have hkept : filtered field (some "starts_with") (.str "a") items = .ok (.arr [first, last]) := rfl
  have hfails : filtered field (some "resembles") (.str "a") items = .error (.unknownOperator "resembles") := rfl
  obtain ⟨c, hc, hknown⟩ := filter_eq_conditions field (some "starts_with") hfield (.str "a")
  obtain ⟨d, hd, hunknown⟩ := filter_eq_conditions field (some "resembles") hfield (.str "a")
  obtain ⟨-, hverdicts⟩ := (hknown.ok_iff _ _).mp hkept
  obtain ⟨-, herror⟩ := (hunknown.error_iff _ _).mp hfails
  exact ⟨hfield, hkept, ⟨c, hc, Value.arr.inj hverdicts⟩, d, hd, herror .null, hfails⟩

end Transforms

end Pipewright
