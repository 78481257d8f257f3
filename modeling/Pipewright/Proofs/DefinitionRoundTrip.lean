import Pipewright.Definition.Encode
import Pipewright.Proofs.ImplicitConjunction
import Pipewright.Proofs.NestingCeiling

/-!
# Writing and reading definitions

What has been read from a definition is what is read again after it has been written. Not every pipeline is read back
as it was written, since a list of exactly one condition would be taken for a comparison; but no value is read as such
a list in the first place.
-/
namespace Pipewright

/-! ### The fields of what is written -/

namespace Fields

variable {α : Type}

@[simp] theorem get?_append (name : String) (fields more : Fields α) :
    get? name (fields ++ more) = (get? name fields).or (get? name more) := by
  induction fields with
  | nil => rfl
  | cons head rest ih =>
    obtain ⟨key, a⟩ := head
    rw [List.cons_append, get?, get?]
    split
    · rfl
    · exact ih

/-- Of several entries of one name the last counts. -/
@[simp] theorem get?_ofList (name : String) (entries : Fields α) :
    get? name (ofList entries) = get? name entries.reverse := by
  suffices h : ∀ fields, get? name (extend fields entries) = (get? name entries.reverse).or (get? name fields) by
    exact (h []).trans (Option.or_none)
  induction entries with
  | nil => exact fun _ => rfl
  | cons entry rest ih =>
    intro fields
    obtain ⟨key, a⟩ := entry
    have hstep : extend fields ((key, a) :: rest) = extend (insert key a fields) rest := rfl
    rw [hstep, ih, get?_insert, List.reverse_cons, get?_append, Option.or_assoc]
    by_cases hkey : key = name <;> simp [get?, hkey]

end Fields

@[simp] theorem get?_optionalEntry (name key : String) (v : Option Value) :
    Fields.get? name (optionalEntry key v) = if key = name then v else none := by
  cases v <;> simp [optionalEntry, Fields.get?]

@[simp] theorem reverse_optionalEntry (key : String) (v : Option Value) :
    (optionalEntry key v).reverse = optionalEntry key v := by
  cases v <;> rfl

variable {fields : Fields Value}

theorem requiredText_written {name s : String} (h : Fields.get? name fields = some (.str s)) :
    Reading.requiredText (readings fields) name = .ok s := by
  rw [Reading.requiredText, required_readings h]
  rfl

theorem optionalText_written {name : String} {s : Option String} (h : Fields.get? name fields = s.map .str) :
    Reading.optionalText (readings fields) name = .ok s := by
  rw [Reading.optionalText, present_readings, h]
  cases s <;> rfl

theorem plain_written {name : String} {v : Value} (h : Fields.get? name fields = some v) :
    Reading.plain (readings fields) name = v := by
  rw [Reading.plain, Fields.get?_map, h]
  exact Value.reading_value v

theorem optionalFields_written {name : String} {inner : Fields Value}
    (h : Fields.get? name fields = some (.obj inner)) :
    Reading.optionalFields (readings fields) name = .ok inner := by
  rw [Reading.optionalFields, present_readings, h]
  simp [Value.isNull]

/-- A field that goes by two names is written under the first. -/
theorem aliased_written {name second : String} {s : Option String} (h : Fields.get? name fields = s.map .str)
    (hsecond : Fields.get? second fields = none) :
    ∃ r, Reading.aliased (readings fields) name second = .ok r ∧ Reading.textOf r = .ok s := by
  rw [Reading.aliased, Fields.get?_map, Fields.get?_map, h, hsecond]
  cases s with
  | none => exact ⟨none, rfl, rfl⟩
  | some s => exact ⟨some (Value.str s).reading, rfl, rfl⟩

/-! ### Conditions -/

namespace Condition

/-- A condition is read as it has been written. -/
def RoundTrips (c : Condition) : Prop := decode c.encode = .ok c

theorem forall₂_encodeAll {conditions : List Condition} (h : ∀ c ∈ conditions, c.RoundTrips) :
    List.Forall₂ (fun v c => decode v = .ok c) (encodeAll conditions) conditions := by
  induction conditions with
  | nil => exact .nil
  | cons c rest ih =>
    obtain ⟨hc, hrest⟩ := List.forall_mem_cons.mp h
    exact .cons hc (ih hrest)

variable {conditions : List Condition}

theorem roundTrips_all (h : ∀ c ∈ conditions, c.RoundTrips) : (Condition.all conditions).RoundTrips :=
  decode_and (forall₂_encodeAll h)

theorem roundTrips_any (h : ∀ c ∈ conditions, c.RoundTrips) : (Condition.any conditions).RoundTrips :=
  decode_or (forall₂_encodeAll h)

theorem roundTrips_negate {c : Condition} (h : c.RoundTrips) : (Condition.negate c).RoundTrips := decode_not h

theorem roundTrips_list (hlength : conditions.length ≠ 1) (h : ∀ c ∈ conditions, c.RoundTrips) :
    (Condition.list conditions).RoundTrips := by
  have hall := forall₂_encodeAll h
  exact decode_list hall (hall.length_eq ▸ hlength)

theorem roundTrips_compare (c : Comparison) : (Condition.compare c).RoundTrips := by
  obtain ⟨field, operator, v⟩ := c
  rw [RoundTrips, decode, encode, Value.reading_obj]
  simp [Reading.ofEntries, Reading.conditionOfEntries, Reading.comparison, Reading.required, Reading.plain,
    Reading.text, Value.text, Fields.get?, bind, Except.bind, pure, Except.pure]

end Condition

/-! ### Steps and pipelines -/

namespace Step

/-- A step is read as it has been written, inside another step or not. -/
def RoundTrips (s : Step) : Prop := ∀ inner, s.encode.reading.step inner = .ok s

theorem steps_encodeAll {steps : List Step} (h : ∀ s ∈ steps, s.RoundTrips) (inner : Bool) :
    (Value.arr (encodeAll steps)).reading.steps inner = .ok steps := by
  rw [Value.reading_arr]
  change ((encodeAll steps).map Value.reading).mapM (·.step inner) = .ok steps
  induction steps with
  | nil => rfl
  | cons s rest ih =>
    obtain ⟨hs, hrest⟩ := List.forall_mem_cons.mp h
    rw [encodeAll, List.map_cons, List.mapM_cons, hs inner, ih hrest]
    rfl

theorem optionalSteps_written {name : String} {steps : List Step} (h : ∀ s ∈ steps, s.RoundTrips)
    (hget : Fields.get? name fields = some (.arr (encodeAll steps))) :
    Reading.optionalSteps (readings fields) name = .ok steps := by
  rw [Reading.optionalSteps, present_readings, hget]
  exact steps_encodeAll h true

theorem parse?_name (kind : StepKind) : StepKind.parse? kind.name = some kind := by
  cases kind <;> rfl

end Step

namespace PipelineOf

/-- A pipeline is read as it has been written, inside a step or not. -/
def RoundTrips (pipeline : Pipeline) : Prop := ∀ inner, pipeline.encode.reading.pipeline inner = .ok pipeline

theorem limits_decode_encode (limits : Limits) : Limits.decode limits.encode = .ok limits := by
  simp [Limits.decode, Limits.encode, Value.record, Fields.given, Fields.get?, Value.nat, Value.natural, bind,
    Except.bind, pure, Except.pure]

/-- A pipeline round-trips with its steps. -/
theorem roundTrips {pipeline : Pipeline} (h : ∀ s ∈ pipeline.steps, s.RoundTrips) : pipeline.RoundTrips := by
  intro inner
  obtain ⟨name, description, steps, output, limits⟩ := pipeline
  rw [encode, encodeParts, Value.reading_obj]
  change Reading.pipelineOf (readings _) inner = _
  set fields := Fields.ofList (optionalText "name" name ++
    optionalText "description" description ++ [("steps", .arr (Step.encodeAll steps))] ++
    optionalText "output" output ++ optionalEntry "limits" (limits.map Limits.encode)) with hfields
  have hname : Fields.get? "name" fields = name.map .str := by
    simp [hfields, optionalText, Fields.get?]
  have hdescription : Fields.get? "description" fields = description.map .str := by
    simp [hfields, optionalText, Fields.get?]
  have hsteps : Fields.get? "steps" fields = some (.arr (Step.encodeAll steps)) := by
    simp [hfields, optionalText, Fields.get?]
  have houtput : Fields.get? "output" fields = output.map .str := by
    simp [hfields, optionalText, Fields.get?]
  have hlimits : Fields.get? "limits" fields = limits.map Limits.encode := by
    simp [hfields, optionalText, Fields.get?]
  rw [Reading.pipelineOf, optionalText_written hdescription, optionalText_written hname,
    optionalText_written houtput, required_readings hsteps, present_readings, hlimits]
  have hread : (Value.arr (Step.encodeAll steps)).reading.steps inner = .ok steps := Step.steps_encodeAll h inner
  cases limits with
  | none =>
    simp [hread, bind, Except.bind, pure, Except.pure]
  | some limits =>
    have hsome : Limits.decode limits.encode = .ok limits := limits_decode_encode limits
    simp [Limits.encode, Value.isNull] at hsome ⊢
    simp [hread, hsome, bind, Except.bind, Except.map]

end PipelineOf

namespace Step

/-- A step that is written as its entries round-trips if what has the same fields is read as the step. -/
theorem roundTrips_of_entries {s : Step} {kind : StepKind} {entries : List (String × Value)} {output : Option String}
    (hencode : s.encode = encodeAs kind entries output) (htype : Fields.get? "type" entries.reverse = none)
    (h : ∀ fields, (∀ name, Fields.get? name fields =
      Fields.get? name (("type", .str kind.name) :: entries ++ optionalText "output" output).reverse) →
      Reading.stepOf (readings fields) kind = .ok s) : s.RoundTrips := by
  intro inner
  let fields := Fields.ofList (("type", .str kind.name) :: entries ++ optionalText "output" output)
  have hfields (name : String) : Fields.get? name fields = _ := Fields.get?_ofList name _
  have htag : Fields.get? "type" fields = some (.str kind.name) := by
    simp [hfields, optionalText, Fields.get?, htype]
  have hkind : Reading.stepKind inner (.str kind.name) = .ok kind := by
    rw [Reading.stepKind]
    simp [parse?_name]
  rw [hencode, encodeAs, Value.reading_obj]
  change Reading.stepOfEntries (readings fields) inner = _
  rw [Reading.stepOfEntries, required_readings htag]
  change (Reading.stepKind inner (Value.str kind.name).reading.value >>= _) = _
  rw [Value.reading_value, hkind]
  exact h fields hfields

variable {steps more : List Step}

theorem roundTrips_ability (name : String) (input : Value) (output : Option String) :
    (ability name input output).RoundTrips := by
  refine roundTrips_of_entries rfl (by simp [Fields.get?]) fun fields hfields => ?_
  have hname : Fields.get? "ability" fields = some (.str name) := by
    simp [hfields, optionalText, Fields.get?]
  have hinput : Fields.get? "input" fields = some input := by
    simp [hfields, optionalText, Fields.get?]
  have houtput : Fields.get? "output" fields = output.map .str := by
    simp [hfields, optionalText, Fields.get?]
  rw [Reading.stepOf, requiredText_written hname, optionalText_written houtput, plain_written hinput]
  rfl

theorem roundTrips_transform (operation : String) (input : Value) (params : Fields Value) (output : Option String) :
    (transform operation input params output).RoundTrips := by
  refine roundTrips_of_entries rfl (by simp [Fields.get?]) fun fields hfields => ?_
  have hoperation : Fields.get? "operation" fields = some (.str operation) := by
    simp [hfields, optionalText, Fields.get?]
  have hinput : Fields.get? "input" fields = some input := by
    simp [hfields, optionalText, Fields.get?]
  have hparams : Fields.get? "params" fields = some (.obj params) := by
    simp [hfields, optionalText, Fields.get?]
  have houtput : Fields.get? "output" fields = output.map .str := by
    simp [hfields, optionalText, Fields.get?]
  rw [Reading.stepOf, required_readings hinput, requiredText_written hoperation, optionalText_written houtput,
    optionalFields_written hparams]
  simp [bind, Except.bind, pure, Except.pure]

theorem roundTrips_conditional {condition : Condition} (hcondition : condition.RoundTrips)
    (hsteps : ∀ s ∈ steps, s.RoundTrips) (hmore : ∀ s ∈ more, s.RoundTrips) (output : Option String) :
    (conditional condition steps more output).RoundTrips := by
  refine roundTrips_of_entries rfl (by simp [Fields.get?]) fun fields hfields => ?_
  have hget : Fields.get? "condition" fields = some condition.encode := by
    simp [hfields, optionalText, Fields.get?]
  have hthen : Fields.get? "then" fields = some (.arr (encodeAll steps)) := by
    simp [hfields, optionalText, Fields.get?]
  have helse : Fields.get? "else" fields = some (.arr (encodeAll more)) := by
    simp [hfields, optionalText, Fields.get?]
  have houtput : Fields.get? "output" fields = output.map .str := by
    simp [hfields, optionalText, Fields.get?]
  have hread : condition.encode.reading.condition = .ok condition := hcondition
  rw [Reading.stepOf, required_readings hget, optionalSteps_written hsteps hthen, optionalSteps_written hmore helse,
    optionalText_written houtput]
  simp [hread, bind, Except.bind, pure, Except.pure]

theorem roundTrips_loop (input : Value) (hsteps : ∀ s ∈ steps, s.RoundTrips) (itemVar : String)
    (indexVar collect output : Option String) :
    (loop input steps itemVar indexVar collect output).RoundTrips := by
  refine roundTrips_of_entries rfl (by simp [optionalText, Fields.get?]) fun fields hfields => ?_
  have hinput : Fields.get? "input" fields = some input := by
    simp [hfields, optionalText, Fields.get?]
  have hbody : Fields.get? "steps" fields = some (.arr (encodeAll steps)) := by
    simp [hfields, optionalText, Fields.get?]
  have hitem : Fields.get? "item_var" fields = (some itemVar).map .str := by
    simp [hfields, optionalText, Fields.get?]
  have hitem' : Fields.get? "itemVar" fields = none := by
    simp [hfields, optionalText, Fields.get?]
  have hindex : Fields.get? "index_var" fields = indexVar.map .str := by
    simp [hfields, optionalText, Fields.get?]
  have hindex' : Fields.get? "indexVar" fields = none := by
    simp [hfields, optionalText, Fields.get?]
  have hcollect : Fields.get? "collect" fields = collect.map .str := by
    simp [hfields, optionalText, Fields.get?]
  have houtput : Fields.get? "output" fields = output.map .str := by
    simp [hfields, optionalText, Fields.get?]
  have hread := steps_encodeAll hsteps true
  obtain ⟨item, hitem, hitemVar⟩ := aliased_written hitem hitem'
  obtain ⟨index, hindex, hindexVar⟩ := aliased_written hindex hindex'
  rw [Reading.stepOf, optionalText_written hcollect, hindex, required_readings hinput, hitem,
    optionalText_written houtput, required_readings hbody]
  simp [hread, hitemVar, hindexVar, bind, Except.bind, pure, Except.pure]

theorem roundTrips_parallel (hsteps : ∀ s ∈ steps, s.RoundTrips) (output : Option String) :
    (parallel steps output).RoundTrips := by
  refine roundTrips_of_entries rfl (by simp [Fields.get?]) fun fields hfields => ?_
  have hbranches : Fields.get? "steps" fields = some (.arr (encodeAll steps)) := by
    simp [hfields, optionalText, Fields.get?]
  have houtput : Fields.get? "output" fields = output.map .str := by
    simp [hfields, optionalText, Fields.get?]
  have hread := steps_encodeAll hsteps true
  rw [Reading.stepOf, optionalText_written houtput, required_readings hbranches]
  simp [hread, Value.isNull, bind, Except.bind, pure, Except.pure]

theorem roundTrips_tryCatch {always : List Step} {recovery : Option (List Step)} (hsteps : ∀ s ∈ steps, s.RoundTrips)
    (hrecovery : ∀ list, recovery = some list → ∀ s ∈ list, s.RoundTrips) (halways : ∀ s ∈ always, s.RoundTrips)
    (output : Option String) : (tryCatch steps recovery always output).RoundTrips := by
  refine roundTrips_of_entries rfl (by simp [Fields.get?]) fun fields hfields => ?_
  have htry : Fields.get? "try" fields = some (.arr (encodeAll steps)) := by
    simp [hfields, optionalText, Fields.get?]
  have hcatch : Fields.get? "catch" fields = (encodeOption recovery).map .arr := by
    simp [hfields, optionalText, Fields.get?]
  have hfinally : Fields.get? "finally" fields = some (.arr (encodeAll always)) := by
    simp [hfields, optionalText, Fields.get?]
  have houtput : Fields.get? "output" fields = output.map .str := by
    simp [hfields, optionalText, Fields.get?]
  have hread := steps_encodeAll hsteps true
  rw [Reading.stepOf, present_readings, hcatch, optionalSteps_written halways hfinally, optionalText_written houtput,
    required_readings htry]
  cases recovery with
  | none => simp [encodeOption, hread, bind, Except.bind, pure, Except.pure]
  | some list =>
    have hlist := steps_encodeAll (hrecovery list rfl) true
    simp [encodeOption, hread, hlist, Value.isNull, bind, Except.bind, pure, Except.pure, Except.map]

theorem roundTrips_subPipeline {pipeline : Pipeline} (hpipeline : pipeline.RoundTrips) (inputs : Fields Value)
    (output : Option String) : (subPipeline pipeline inputs output).RoundTrips := by
  refine roundTrips_of_entries rfl (by simp [Fields.get?]) fun fields hfields => ?_
  have hget : Fields.get? "pipeline" fields = some pipeline.encode := by
    simp [hfields, optionalText, Fields.get?, PipelineOf.encode]
  have hinputs : Fields.get? "inputs" fields = some (.obj inputs) := by
    simp [hfields, optionalText, Fields.get?]
  have houtput : Fields.get? "output" fields = output.map .str := by
    simp [hfields, optionalText, Fields.get?]
  rw [Reading.stepOf, optionalFields_written hinputs, optionalText_written houtput, required_readings hget]
  simp [hpipeline true, bind, Except.bind, pure, Except.pure]

end Step

/-! ### What is read -/

/-- Whatever a reading gives, it round-trips. -/
structure Reading.Stable (r : Reading) : Prop where
  condition : ∀ c, r.condition = .ok c → c.RoundTrips
  conditions : ∀ cs, r.conditions = .ok cs → ∀ c ∈ cs, c.RoundTrips
  step : ∀ inner s, r.step inner = .ok s → s.RoundTrips
  steps : ∀ inner steps, r.steps inner = .ok steps → ∀ s ∈ steps, s.RoundTrips
  pipeline : ∀ inner pipeline, r.pipeline inner = .ok pipeline → pipeline.RoundTrips

namespace Reading

variable {record : Record} {items : List Reading} {name : String} {r : Reading}

theorem stable_of_required (h : ∀ entry ∈ record, entry.2.Stable) (hrequired : required record name = .ok r) :
    r.Stable := by
  rw [required] at hrequired
  split at hrequired
  next hget =>
    cases hrequired
    exact h _ (Fields.mem_of_get? hget)
  · cases hrequired

theorem stable_of_present (h : ∀ entry ∈ record, entry.2.Stable) (hpresent : present? record name = some r) :
    r.Stable := by
  obtain ⟨hget, -⟩ := Option.filter_eq_some_iff.mp hpresent
  exact h _ (Fields.mem_of_get? hget)

theorem stable_of_positional {names : List String} (h : ∀ item ∈ items, item.Stable)
    (hpositional : positional names items = .ok record) : ∀ entry ∈ record, entry.2.Stable := by
  rw [positional] at hpositional
  split at hpositional
  · cases hpositional
    exact fun entry hentry => h _ (List.of_mem_zip hentry).2
  · cases hpositional

theorem roundTrips_optionalSteps (h : ∀ entry ∈ record, entry.2.Stable) {steps : List Step}
    (hread : optionalSteps record name = .ok steps) : ∀ s ∈ steps, s.RoundTrips := by
  rw [optionalSteps] at hread
  split at hread
  next hpresent => exact (stable_of_present h hpresent).steps true steps hread
  · cases hread
    exact List.forall_mem_nil _

theorem length_eq_of_mapM {α β : Type} {f : α → Except DecodeError β} {items : List α} {results : List β}
    (h : items.mapM f = .ok results) : items.length = results.length := by
  induction items generalizing results with
  | nil =>
    cases h
    rfl
  | cons first rest ih =>
    rw [List.mapM_cons] at h
    obtain ⟨b, -, h⟩ := exists_ok_of_bind h
    obtain ⟨others, hothers, h⟩ := exists_ok_of_bind h
    cases h
    rw [List.length_cons, List.length_cons, ih hothers]

/-- A list that is not taken for a comparison does not have exactly one item. -/
theorem length_ne_one_of_not_comparison {e : DecodeError}
    (h : (positional ["field", "operator", "value"] items).bind comparison = .error e) : items.length ≠ 1 := by
  intro hlength
  obtain ⟨item, rfl⟩ := List.length_eq_one_iff.mp hlength
  cases h

theorem roundTrips_conditionOfItems (h : ∀ item ∈ items, item.Stable) {c : Condition}
    (hread : conditionOfItems items = .ok c) : c.RoundTrips := by
  rw [conditionOfItems] at hread
  split at hread
  next comparison _ =>
    cases hread
    exact Condition.roundTrips_compare comparison
  next hnot =>
    cases hmap : items.mapM Reading.condition with
    | error e =>
      rw [hmap] at hread
      cases hread
    | ok cs =>
      rw [hmap] at hread
      cases hread
      refine Condition.roundTrips_list (length_eq_of_mapM hmap ▸ length_ne_one_of_not_comparison hnot) fun c hc => ?_
      obtain ⟨item, hitem, hcondition⟩ := exists_of_mem_mapM hmap c hc
      exact (h item hitem).condition c hcondition

theorem roundTrips_conditionOfEntries (h : ∀ entry ∈ record, entry.2.Stable) {c : Condition}
    (hread : conditionOfEntries record = .ok c) : c.RoundTrips := by
  have hgroup {name : String} {cs : List Condition}
      (hcs : (required record name >>= fun r => r.conditions) = .ok cs) : ∀ c ∈ cs, c.RoundTrips := by
    obtain ⟨r, hrequired, hcs⟩ := exists_ok_of_bind hcs
    exact (stable_of_required h hrequired).conditions cs hcs
  rw [conditionOfEntries] at hread
  dsimp only at hread
  split at hread
  next hand =>
    cases hread
    exact Condition.roundTrips_all (hgroup hand)
  next hor _ =>
    cases hread
    exact Condition.roundTrips_any (hgroup hor)
  next hnot _ _ =>
    cases hread
    obtain ⟨r, hrequired, hcondition⟩ := exists_ok_of_bind hnot
    exact Condition.roundTrips_negate ((stable_of_required h hrequired).condition _ hcondition)
  next =>
    cases hread
    exact Condition.roundTrips_compare _
  · cases hread

/-- The steps of a list are read one by one. -/
theorem roundTrips_mapM {inner : Bool} (h : ∀ item ∈ items, item.Stable) {steps : List Step}
    (hread : items.mapM (·.step inner) = .ok steps) : ∀ s ∈ steps, s.RoundTrips := by
  intro s hs
  obtain ⟨item, hitem, hstep⟩ := exists_of_mem_mapM hread s hs
  exact (h item hitem).step inner s hstep

theorem roundTrips_stepOf (h : ∀ entry ∈ record, entry.2.Stable) {kind : StepKind} {s : Step}
    (hread : stepOf record kind = .ok s) : s.RoundTrips := by
  have hrequired {name : String} {r : Reading} {steps : List Step} (hr : required record name = .ok r)
      (hsteps : r.steps true = .ok steps) : ∀ s ∈ steps, s.RoundTrips :=
    (stable_of_required h hr).steps true steps hsteps
  cases kind with
  | ability =>
    obtain ⟨name, -, hread⟩ := exists_ok_of_bind hread
    obtain ⟨output, -, hread⟩ := exists_ok_of_bind hread
    cases hread
    exact Step.roundTrips_ability _ _ _
  | transform =>
    obtain ⟨input, -, hread⟩ := exists_ok_of_bind hread
    obtain ⟨operation, -, hread⟩ := exists_ok_of_bind hread
    obtain ⟨output, -, hread⟩ := exists_ok_of_bind hread
    obtain ⟨params, -, hread⟩ := exists_ok_of_bind hread
    cases hread
    exact Step.roundTrips_transform _ _ _ _
  | conditional =>
    obtain ⟨r, hr, hread⟩ := exists_ok_of_bind hread
    obtain ⟨condition, hcondition, hread⟩ := exists_ok_of_bind hread
    obtain ⟨whenFalse, hfalse, hread⟩ := exists_ok_of_bind hread
    obtain ⟨output, -, hread⟩ := exists_ok_of_bind hread
    obtain ⟨whenTrue, htrue, hread⟩ := exists_ok_of_bind hread
    cases hread
    exact Step.roundTrips_conditional ((stable_of_required h hr).condition condition hcondition)
      (roundTrips_optionalSteps h htrue) (roundTrips_optionalSteps h hfalse) _
  | loop =>
    obtain ⟨input, body, itemVar, indexVar, collect, output, rfl, r, hr, hsteps⟩ := exists_of_loop hread
    exact Step.roundTrips_loop _ (hrequired hr hsteps) _ _ _ _
  | parallel =>
    obtain ⟨branches, output, rfl, r, hr, hbranches⟩ := exists_of_parallel hread
    rcases hbranches with ⟨-, rfl⟩ | ⟨-, hsteps⟩
    · exact Step.roundTrips_parallel (List.forall_mem_nil _) _
    · exact Step.roundTrips_parallel (hrequired hr hsteps) _
  | tryCatch =>
    obtain ⟨attempt, recovery, always, output, rfl, ⟨r, hr, hsteps⟩, hrecovery, halways⟩ := exists_of_tryCatch hread
    refine Step.roundTrips_tryCatch (hrequired hr hsteps) (fun list hsome => ?_) (roundTrips_optionalSteps h halways) _
    obtain ⟨r, hpresent, hlist⟩ := hrecovery list hsome
    exact (stable_of_present h hpresent).steps true list hlist
  | subPipeline =>
    obtain ⟨pipeline, inputs, output, rfl, r, hr, hpipeline⟩ := exists_of_subPipeline hread
    exact Step.roundTrips_subPipeline ((stable_of_required h hr).pipeline true pipeline hpipeline) _ _

theorem roundTrips_pipelineOf (h : ∀ entry ∈ record, entry.2.Stable) {inner : Bool} {pipeline : Pipeline}
    (hread : pipelineOf record inner = .ok pipeline) : pipeline.RoundTrips := by
  obtain ⟨-, r, hr, hsteps⟩ := parts_of_pipelineOf hread
  exact PipelineOf.roundTrips ((stable_of_required h hr).steps inner _ hsteps)

theorem stable_leaf (v : Value) : (leaf v).Stable := ⟨nofun, nofun, nofun, nofun, nofun⟩

theorem stable_ofItems (h : ∀ item ∈ items, item.Stable) : (ofItems items).Stable where
  condition _ := roundTrips_conditionOfItems h
  conditions cs hread c hc := by
    obtain ⟨item, hitem, hcondition⟩ := exists_of_mem_mapM hread c hc
    exact (h item hitem).condition c hcondition
  step inner s hread := by
    cases items with
    | nil => cases hread
    | cons tag items =>
      obtain ⟨kind, -, hread⟩ := exists_ok_of_bind hread
      obtain ⟨record, hrecord, hread⟩ := exists_ok_of_bind hread
      exact roundTrips_stepOf (stable_of_positional (List.forall_mem_cons.mp h).2 hrecord) hread
  steps _ _ := roundTrips_mapM h
  pipeline inner pipeline hread := by
    obtain ⟨record, hrecord, hread⟩ := exists_ok_of_bind hread
    exact roundTrips_pipelineOf (stable_of_positional h hrecord) hread

theorem stable_ofEntries (h : ∀ entry ∈ record, entry.2.Stable) : (ofEntries record).Stable where
  condition _ := roundTrips_conditionOfEntries h
  conditions := nofun
  step inner s hread := by
    obtain ⟨tag, -, hread⟩ := exists_ok_of_bind hread
    obtain ⟨kind, -, hread⟩ := exists_ok_of_bind hread
    exact roundTrips_stepOf h hread
  steps := nofun
  pipeline _ _ := roundTrips_pipelineOf h

end Reading

theorem Value.stable_reading (v : Value) : v.reading.Stable := by
  induction v using Value.induction with
  | null | bool | num | str => exact Reading.stable_leaf _
  | arr items ih =>
    rw [reading_arr]
    exact Reading.stable_ofItems (List.forall_mem_map.mpr ih)
  | obj fields ih =>
    rw [reading_obj]
    exact Reading.stable_ofEntries (List.forall_mem_map.mpr ih)

/-- A pipeline that has been read from a definition is read from what it is written as. -/
theorem PipelineOf.decode_encode {definition : Value} {pipeline : Pipeline} (h : decode definition = .ok pipeline) :
    decode pipeline.encode = .ok pipeline :=
  definition.stable_reading.pipeline false pipeline h false

/-- Lists for records, a number for a type, the second name of a field, null for what may be left out, and limits of
which some are left out. -/
theorem PipelineOf.decode_encode_abbreviated :
    let loop : Value := .obj [("indexVar", .str "i"), ("input", .str "$xs"), ("item_var", .null),
      ("steps", .arr [.arr [.nat 0, .str "log"]]), ("type", .str "loop")]
    let conditional : Value := .obj [("condition", .arr [.arr [], .obj [("not", .arr [.str "$x"])]]),
      ("else", .arr [.arr [.nat 4, .null]]), ("then", .null), ("type", .str "conditional")]
    let definition : Value := .arr [.null, .str "all", .arr [loop, conditional,
      .arr [.str "sub_pipeline", .obj [("steps", .arr [])], .null, .str "out"]], .null, .arr [.nat 5]]
    let pipeline : Pipeline := ⟨none, some "all",
      [.loop (.str "$xs") [.ability "log" .null none] "item" (some "i") none none,
        .conditional (.list [.list [], .negate (.compare ⟨.str "$x", "not_empty", .null⟩)]) [] [.parallel [] none] none,
        .subPipeline ⟨none, none, [], none, none⟩ [] (some "out")], none, some ⟨5, 10, 300⟩⟩
    decode definition = .ok pipeline ∧ decode pipeline.encode = .ok pipeline := by
  intro loop conditional definition pipeline
  have hdecode : decode definition = .ok pipeline := rfl
  exact ⟨hdecode, decode_encode hdecode⟩

end Pipewright
