import Exemplar.Proofs.Bounds
import Exemplar.Proofs.Renderings

/-!
Checks made once more. What passes is told for each kind of check by a condition on the value, so
that it can be carried over to another value: the number that is stored in the place of an integral
float, or the plain form of a collection, which is of the same size.
-/

namespace Exemplar

namespace Check

variable {name listing word className : String} {heap : Heap} {value limit : Value} {side : Side}
  {choices : Choices} {pattern : Pattern} {size : Heap → Value → Run Nat} {before after : Trace}

theorem allowed_passes :
    ((allowed choices listing).apply name heap value).Yields before .pass after ↔
      choices.holds heap value = true ∧ after = before := by
  by_cases held : choices.holds heap value = true <;> simp [apply, held]

theorem matching_passes :
    ((matching pattern).apply name heap value).Yields before .pass after ↔
      (∃ shown, heap.display value = .ok shown ∧ pattern.occursIn shown = true) ∧
        after = before := by
  simp only [apply, Run.yields_bind, Run.yields_lift]
  constructor
  · intro found
    obtain ⟨shown, _, ⟨displayed, rfl⟩, answered⟩ := found
    by_cases occurs : pattern.occursIn shown = true
    · simp only [occurs, if_true, Run.yields_pure, true_and] at answered
      exact ⟨⟨shown, displayed, occurs⟩, answered⟩
    · simp [occurs] at answered
  · intro found
    obtain ⟨⟨shown, displayed, occurs⟩, rfl⟩ := found
    exact ⟨shown, _, ⟨displayed, rfl⟩, by simp [occurs]⟩

theorem noRegex_passes : ¬ ((noRegex className).apply name heap value).Yields before .pass after :=
  Run.yields_throw

theorem integer_passes :
    (integer.apply name heap value).Yields before .pass after ↔
      heap.holdsSafeInteger value = true ∧ after = before := by
  by_cases safe : heap.holdsSafeInteger value = true <;> simp [apply, safe]

theorem bySize_passes :
    ((bySize side word limit size).apply name heap value).Yields before .pass after ↔
      ∃ count, (size heap value).Yields before count after ∧
        heap.order side (.int count) limit = .ok false := by
  simp only [apply, Run.yields_bind, Run.yields_lift]
  constructor
  · intro found
    obtain ⟨count, middle, measured, beyond, _, ⟨ordered, rfl⟩, answered⟩ := found
    cases beyond with
    | true => simp at answered
    | false =>
        simp only [Bool.false_eq_true, if_false, Run.yields_pure, true_and] at answered
        exact ⟨count, answered ▸ measured, ordered⟩
  · intro found
    obtain ⟨count, measured, ordered⟩ := found
    exact ⟨count, after, measured, false, after, ⟨ordered, rfl⟩, by simp⟩

/-- Null cannot be compared yet and passes, but no other value is let off. -/
theorem byValue_passes (present : value ≠ .null) :
    ((byValue side limit fun _ value => return value).apply name heap value).Yields before .pass
        after ↔
      heap.order side value limit = .ok false ∧ after = before := by
  simp only [apply, pure_bind, Run.yields_bind, Run.yields_lift]
  constructor
  · intro found
    obtain ⟨beyond, _, ⟨ordered, rfl⟩, answered⟩ := found
    cases beyond with
    | true => simp at answered
    | false =>
        simp only [Bool.false_eq_true, if_false, Run.yields_pure, true_and] at answered
        exact ⟨ordered, answered⟩
  · intro found
    obtain ⟨ordered, rfl⟩ := found
    exact ⟨false, _, ⟨ordered, rfl⟩, by simp⟩

end Check

theorem Field.firstFailureOf_of_all {events : Event → Prop} {name : String} {heap : Heap}
    {value : Value} {checks : List Check}
    (all : ∀ check ∈ checks, (check.apply name heap value).Gives events .pass) :
    (firstFailureOf name heap value checks).Gives events .pass := by
  induction checks with
  | nil => exact Run.gives_of_yields fun _ => Run.yields_pure.mpr ⟨rfl, rfl⟩
  | cons check rest ih =>
      simp only [List.forall_mem_cons] at all
      exact all.1.bind (ih all.2)

namespace Heap

variable {heap : Heap} {sample value other : Value}

/-- Mappings have no order. -/
theorem order_of_mapping {side : Side} {entries : List (Value × Value)} {answer : Bool}
    (mapping : heap.look value = .mapping entries) : heap.order side value other ≠ .ok answer := by
  obtain ⟨levels, opened⟩ := order_eq heap side value other
  rw [opened, orderTo, mapping]
  cases heap.look other <;> simp [Value.quantity?]

/-- Records have no order. -/
theorem order_of_record {side : Side} {recordClass : RecordClass} {fields : Named Value}
    {answer : Bool} (record : heap.look value = .record recordClass fields) :
    heap.order side value other ≠ .ok answer := by
  obtain ⟨levels, opened⟩ := order_eq heap side value other
  rw [opened, orderTo, record]
  cases heap.look other <;> simp [Value.quantity?]

/-- The samples that plain forms keep: scalars, what a document holds as a mapping, lists of such
samples, sets of scalars that are not empty, and records. -/
inductive Restorable (heap : Heap) : Value → Prop
  | scalar {sample : Value} : sample.isScalar = true → sample ≠ .null → Restorable heap sample
  | object {sample : Value} {entries : List (Value × Value)} : heap.Json sample →
      heap.look sample = .mapping entries → Restorable heap sample
  | list {sample : Value} {elements : List Value} : heap.look sample = .list elements →
      (∀ element ∈ elements, Restorable heap element) → Restorable heap sample
  | set {sample : Value} {members : List Value} : heap.gathering? sample = some (.set, members) →
      members ≠ [] → (∀ member ∈ members, member.isScalar = true ∧ member ≠ .null) →
      Restorable heap sample
  | record {sample : Value} {recordClass : RecordClass} {fields : Named Value} :
      heap.look sample = .record recordClass fields → Restorable heap sample

theorem Restorable.ne_null (restorable : heap.Restorable sample) : sample ≠ .null := by
  rintro rfl
  cases restorable with
  | scalar _ present => exact present rfl
  | object _ shape | list shape _ | set shape _ _ | record shape => cases shape

/-- A sample that is neither a collection nor a record. -/
theorem Restorable.of_plain (restorable : heap.Restorable sample)
    (bare : heap.gathering? sample = none) (single : heap.isRecord sample = false) :
    sample.isScalar = true ∧ sample ≠ .null ∨
      heap.Json sample ∧ ∃ entries, heap.look sample = .mapping entries := by
  cases restorable with
  | scalar scalar present => exact .inl ⟨scalar, present⟩
  | object json shape => exact .inr ⟨json, _, shape⟩
  | list shape _ => simp [gathering?, shape] at bare
  | set shape _ _ => cases bare.symm.trans shape
  | record shape => simp [isRecord, shape] at single

theorem Restorable.of_gathering {kind : Gathering} {elements : List Value}
    (restorable : heap.Restorable sample)
    (shape : heap.gathering? sample = some (kind, elements)) :
    kind = .set ∧ elements ≠ [] ∧
        (∀ member ∈ elements, member.isScalar = true ∧ member ≠ .null) ∨
      kind = .array ∧ ∀ element ∈ elements, heap.Restorable element := by
  cases restorable with
  | set other present singles =>
      cases shape.symm.trans other
      exact .inl ⟨rfl, present, singles⟩
  | @list _ others other all =>
      have same : heap.gathering? sample = some (.array, others) := by simp [gathering?, other]
      cases shape.symm.trans same
      exact .inr ⟨rfl, all⟩
  | scalar single _ => cases (gathering_of_isScalar single).symm.trans shape
  | object _ other | record other => simp [gathering?, other] at shape

/-- A sample has a size, or is a scalar, or is a record. -/
theorem Restorable.cases_size (restorable : heap.Restorable sample) :
    heap.hasSize sample = true ∨ sample.isScalar = true ∨ heap.isRecord sample = true := by
  cases restorable with
  | scalar single _ => exact .inr (.inl single)
  | object _ shape | list shape _ => exact .inl (by simp [hasSize, length?, shape])
  | set shape _ _ => exact .inl (hasSize_of_gathering shape)
  | record shape => exact .inr (.inr (by simp [isRecord, shape]))

theorem hash_of_isScalar (heap : Heap) (single : value.isScalar = true) :
    ∃ hash, heap.hash? value = .ok hash := by
  unfold hash? reach
  rw [hashTo, look_of_isScalar single]
  cases value <;> first | exact ⟨_, rfl⟩ | cases single

theorem equalShapes_comm {one two : Comparison} (single : value.isScalar = true)
    (same : equalShapes one value other = some true) : equalShapes two other value = some true := by
  cases value with
  | bool _ | int _ | float _ =>
      rw [equalShapes_of_quantity_right rfl]
      rw [equalShapes_of_quantity rfl] at same
      exact same
  | null | text _ => cases other <;> simp_all [equalShapes, Value.quantity?]
  | _ => cases single

theorem equal_comm_of_isScalar (single : value.isScalar = true)
    (same : heap.equal value other = true) : heap.equal other value = true := by
  have bare : value.sameObject other = false := by
    cases value <;> first | rfl | cases single
  obtain ⟨_, opened⟩ := equal_eq heap value other
  obtain ⟨_, turned⟩ := equal_eq heap other value
  rw [opened, bare, if_neg Bool.false_ne_true, look_of_isScalar single] at same
  rw [turned, look_of_isScalar single,
    equalShapes_comm single (Option.getD_eq_iff.mp same |>.resolve_right (by simp))]
  simp

/-- Of scalars the check of allowed values lets in no others than are listed. -/
theorem isAmong_of_holds {choices : List Value} (single : value.isScalar = true)
    (held : (Choices.ofList heap choices).holds heap value = true) :
    heap.isAmong value choices = true := by
  unfold Choices.ofList at held
  split at held
  next hashes _ =>
    obtain ⟨hash, hashed⟩ := hash_of_isScalar heap single
    simp only [Choices.holds, hashed, Choices.findHashed, List.any_eq_true,
      Bool.and_eq_true] at held
    obtain ⟨member, known, _, same⟩ := held
    simp only [isAmong, List.any_eq_true]
    exact ⟨member.2, (List.of_mem_zip known).2, equal_comm_of_isScalar single same⟩
  next => exact held

end Heap

/-- Fields whose values can be restored from their plain forms. -/
structure Field.Restorable (heap : Heap) (field : Field) : Prop where
  sample : heap.Restorable field.sample
  custom : field.declaration.custom = none
  regex : field.declaration.regex ≠ none → ∃ text, field.sample = .text text
  allowed : field.declaration.allowed ≠ none → field.sample.isScalar = true
  fallback {value} : field.declaration.fallback = some value →
    field.sample.isScalar = true ∧ value.isScalar = true
  defaulted : field.declaration.mode = .defaulted → heap.isRecord field.sample = false

/-- To the checks for a sample the other value is what the value is: for scalars what the value is
stored as, and of the same size where size is what is measured. -/
structure SameToChecks (heap : Heap) (type : ValueType) (sample value other : Value) : Prop where
  scalar : sample.isScalar = true → other = Primitive.parse heap sample value
  sized {before count after} (trace : Trace) : heap.hasSize sample = true →
    (type.measure.size heap value).Yields before count after →
    (type.measure.size heap other).Yields trace count trace

/-- A value that is among the allowed ones gives way to no fallback. -/
theorem Validation.substitute_eq_self {heap : Heap} {declaration : Declaration} {value : Value}
    (among : ∀ choices, declaration.allowed = some choices → heap.isAmong value choices = true) :
    substitute heap declaration value = value := by
  unfold substitute
  split
  next choices _ declared _ => rw [among choices declared, if_pos rfl]
  next => rfl

theorem Heap.Typed.compared {heap : Heap} {sample : Value} {type : ValueType}
    (typed : heap.Typed sample type) : type.measure.compared = fun _ value => return value := by
  cases typed <;> rfl

namespace Field

variable {heap : Heap} {field : Field} {value other : Value} {side : Side} {check : Check}
  {before after : Trace}

/-- No bound can have been passed by a value without an order. -/
theorem bound_passes_again {limit : Value} (trace : Trace)
    (typed : heap.Typed field.sample field.type)
    (kinds : field.sample.isScalar = true ∨
      ∀ side limit answer, heap.order side value limit ≠ .ok answer)
    (present : value ≠ .null) (kept : other ≠ .null)
    (same : SameToChecks heap field.type field.sample value other)
    (passed : ((Check.byValue side limit field.type.measure.compared).apply field.name heap
      value).Yields before .pass after) :
    ((Check.byValue side limit field.type.measure.compared).apply field.name heap other).Yields
      trace .pass trace := by
  rw [typed.compared] at passed ⊢
  obtain ⟨ordered, _⟩ := (Check.byValue_passes present).mp passed
  refine (Check.byValue_passes kept).mpr ⟨?_, rfl⟩
  rcases kinds with single | unordered
  · rw [same.scalar single]
    exact Primitive.order_parse ordered
  · exact absurd ordered (unordered side _ false)

theorem size_passes_again {word : String} {limit : Value} (trace : Trace)
    (sized : heap.hasSize field.sample = true)
    (same : SameToChecks heap field.type field.sample value other)
    (passed : ((Check.bySize side word limit field.type.measure.size).apply field.name heap
      value).Yields before .pass after) :
    ((Check.bySize side word limit field.type.measure.size).apply field.name heap other).Yields
      trace .pass trace := by
  obtain ⟨count, measured, ordered⟩ := Check.bySize_passes.mp passed
  exact Check.bySize_passes.mpr ⟨count, same.sized trace sized measured, ordered⟩

/-- Every check that passed on the value passes on what is the same to it, and leaves no trace. -/
theorem passes_again {events : Event → Prop} (compiled : field.CompiledBy Catalogue.builtIn heap)
    (restorable : field.Restorable heap) (present : value ≠ .null) (kept : other ≠ .null)
    (same : SameToChecks heap field.type field.sample value other)
    (mapping : heap.isRecord field.sample = true → ∃ entries, heap.look value = .mapping entries)
    (passed : (field.firstFailure heap value).Yields before .pass after) :
    (field.firstFailure heap other).Gives events .pass := by
  refine firstFailureOf_of_all fun check member => Run.gives_of_yields fun trace => ?_
  obtain ⟨first, last, applied⟩ := pass_of_firstFailureOf passed check member
  cases Check.asked_of_compile compiled.checked member with
  | bySize _ sized => exact size_passes_again trace sized same applied
  | byValue _ unsized =>
      refine bound_passes_again trace compiled.typed ?_ present kept same applied
      rcases restorable.sample.cases_size with sized | single | record
      · cases sized.symm.trans unsized
      · exact .inl single
      · obtain ⟨entries, shape⟩ := mapping record
        exact .inr fun _ _ _ => Heap.order_of_mapping shape
  | allowed declared _ =>
      have single := restorable.allowed (by simp [declared])
      obtain ⟨held, _⟩ := Check.allowed_passes.mp applied
      refine Check.allowed_passes.mpr ⟨?_, rfl⟩
      rwa [same.scalar single, Primitive.holds_parse]
  | matching declared _ =>
      -- A regular expression is for texts, and a text is stored as it stands.
      obtain ⟨text, shape⟩ := restorable.regex (by simp [declared])
      have unchanged : other = value := by
        rw [same.scalar (by rw [shape]; rfl), shape]
        simp [Primitive.parse, Heap.look]
      subst unchanged
      exact Check.matching_passes.mpr ⟨(Check.matching_passes.mp applied).1, rfl⟩
  | noRegex _ _ _ => exact absurd applied Check.noRegex_passes
  | integer _ unsized plain =>
      obtain ⟨safe, _⟩ := Check.integer_passes.mp applied
      refine Check.integer_passes.mpr ⟨?_, rfl⟩
      rcases restorable.sample.cases_size with sized | single | record
      · cases sized.symm.trans unsized
      · rwa [same.scalar single, Primitive.holdsSafeInteger_parse]
      · simp [Heap.isRecord_eq_false.mpr plain] at record
  | custom declared => cases restorable.custom.symm.trans declared

theorem holds_of_pass {choices : List Value} (compiled : field.CompiledBy Catalogue.builtIn heap)
    (declared : field.declaration.allowed = some choices)
    (passed : (field.firstFailure heap value).Yields before .pass after) :
    (Choices.ofList heap choices).holds heap value = true := by
  obtain ⟨listing, member⟩ := Check.allowed_mem_checks compiled.checked declared
  obtain ⟨first, last, applied⟩ := pass_of_firstFailureOf passed _ member
  exact (Check.allowed_passes.mp applied).1

/-- A value that was let in gives way to no fallback, nor does what it is stored as. -/
theorem substitute_again (compiled : field.CompiledBy Catalogue.builtIn heap)
    (restorable : field.Restorable heap)
    (same : SameToChecks heap field.type field.sample value other)
    (single : field.sample.isScalar = true → value.isScalar = true)
    (passed : (field.firstFailure heap value).Yields before .pass after) :
    Validation.substitute heap field.declaration other = other := by
  refine Validation.substitute_eq_self fun choices declared => ?_
  have scalar := restorable.allowed (by simp [declared])
  have held := holds_of_pass compiled declared passed
  rw [same.scalar scalar, Primitive.isAmong_parse_of_any]
  exact Heap.isAmong_of_holds (single scalar) held

end Field

end Exemplar
