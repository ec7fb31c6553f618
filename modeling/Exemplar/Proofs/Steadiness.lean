import Exemplar.Proofs.Bounds
import Exemplar.Proofs.Containment
import Exemplar.Proofs.Rechecks
import Exemplar.Proofs.StandIns

/-!
Checks that nothing breaks. If samples, bounds and fallbacks are what documents are made of, every
check is applied to values only that it is made for: sizes are taken of sized values, numbers are
compared with numbers, members of sets have hashes, and whatever a message shows has a text.
-/

namespace Exemplar

/-- Null, a truth value, a number or a text. -/
def Value.isSingle : Value → Bool
  | .null | .bool _ | .int _ | .float _ | .text _ => true
  | _ => false

namespace Heap

variable {heap : Heap} {value part sample : Value}

/-- The samples that documents are made for: single values, documents that are mappings, tuples,
lists of such samples, sets of single values that are not empty, and records. The first element
stands for all. -/
inductive Ordinary (heap : Heap) : Value → Prop
  | single {sample : Value} : sample.isSingle = true → Ordinary heap sample
  | object {sample : Value} {entries : List (Value × Value)} : heap.Json sample →
      heap.look sample = .mapping entries → Ordinary heap sample
  | tuple {sample : Value} {elements : List Value} : heap.look sample = .tuple elements →
      Ordinary heap sample
  | list {sample : Value} {elements : List Value} : heap.look sample = .list elements →
      (∀ representative, elements.head? = some representative → Ordinary heap representative) →
      Ordinary heap sample
  | set {sample representative : Value} {rest : List Value} :
      heap.gathering? sample = some (.set, representative :: rest) →
      representative.isSingle = true → Ordinary heap sample
  | record {sample : Value} {recordClass : RecordClass} {fields : Named Value} :
      heap.look sample = .record recordClass fields → Ordinary heap sample

theorem gathering_of_isSingle (single : value.isSingle = true) : heap.gathering? value = none := by
  cases value <;> first | rfl | cases single

theorem look_of_isSingle (single : value.isSingle = true) : heap.look value = value := by
  cases value <;> first | rfl | cases single

section Documents

theorem Json.inside (json : heap.Json value) (member : part ∈ (heap.look value).parts) :
    heap.Json part := by
  cases json with
  | scalar single =>
      rw [look_of_isScalar single] at member
      cases value <;> simp_all [Value.parts, Value.isScalar]
  | list shape each =>
      rw [shape] at member
      exact each part member
  | object shape _ each =>
      rw [shape, Value.mem_parts_object] at member
      obtain ⟨field, known, rfl | rfl⟩ := member
      · exact .scalar rfl
      · exact each field known

/-- A document shows itself as a scalar, a list or a mapping. -/
theorem Json.cases_look (json : heap.Json value) :
    value.isScalar = true ∨ (∃ elements, heap.look value = .list elements) ∨
      ∃ entries, heap.look value = .mapping entries := by
  cases json with
  | scalar single => exact .inl single
  | list shape _ => exact .inr (.inl ⟨_, shape⟩)
  | object shape _ _ => exact .inr (.inr ⟨_, shape⟩)

theorem Json.free (json : heap.Json value) :
    ∀ inner, heap.Holds value inner → ∀ fail, inner ≠ .failure fail := by
  intro inner held
  induction held with
  | self =>
      rintro fail rfl
      rcases json.cases_look with single | ⟨_, shape⟩ | ⟨_, shape⟩
      · cases single
      · cases shape
      · cases shape
  | inside member _ ih => exact ih (json.inside member)

/-- What a document holds has a hash or is of a kind that has none. -/
theorem Json.hash_ne_tooDeep (json : heap.Json value) : heap.hash? value ≠ .error .tooDeep := by
  rcases json.cases_look with single | ⟨elements, shape⟩ | ⟨entries, shape⟩
  · obtain ⟨hash, hashed⟩ := hash_of_isScalar heap single
    simp [hashed]
  all_goals simp [hash?, reach, hashTo, shape, Value.quantity?]

theorem Ordinary.copyable (ordinary : heap.Ordinary sample) : heap.Copyable sample := by
  cases ordinary with
  | object json _ => exact copyable_of_free json.free
  | single single =>
      intro shareable
      rw [Shareable, look_of_isSingle single] at shareable
      cases sample <;> simp_all [Value.isSingle, Collection.isMapping, Collection.isDeque]
  | tuple shape | list shape _ | record shape =>
      intro shareable
      simp [Shareable, shape, Collection.isMapping, Collection.isDeque] at shareable
  | set shape _ =>
      intro shareable
      cases shareable.bare.symm.trans shape

theorem Ordinary.representative {kind : Gathering} {representative : Value} {rest : List Value}
    (ordinary : heap.Ordinary sample)
    (shape : heap.gathering? sample = some (kind, representative :: rest)) :
    heap.Ordinary representative := by
  cases ordinary with
  | list list each =>
      simp only [gathering?, list, Option.some.injEq, Prod.mk.injEq] at shape
      obtain ⟨_, rfl⟩ := shape
      exact each representative rfl
  | set other single =>
      cases shape.symm.trans other
      exact .single single
  | single single => cases (gathering_of_isSingle single).symm.trans shape
  | object _ other | tuple other | record other => simp [gathering?, other] at shape

/-- The first member of a sample that is a set is a single value. -/
theorem Ordinary.single_of_set {members : List Value} (ordinary : heap.Ordinary sample)
    (shape : heap.gathering? sample = some (.set, members)) :
    ∃ representative rest, members = representative :: rest ∧ representative.isSingle = true := by
  cases ordinary with
  | set other single =>
      cases shape.symm.trans other
      exact ⟨_, _, rfl, single⟩
  | list list _ => simp [gathering?, list] at shape
  | single single => cases (gathering_of_isSingle single).symm.trans shape
  | object _ other | tuple other | record other => simp [gathering?, other] at shape

section Sizes

variable {kind : Gathering} {elements members : List Value}

theorem distinct_ne_tooDeep (each : ∀ element ∈ elements, heap.hash? element ≠ .error .tooDeep) :
    heap.distinct members elements ≠ .error .tooDeep := by
  induction elements generalizing members with
  | nil => simp [distinct]
  | cons element rest ih =>
      simp only [List.forall_mem_cons] at each
      simp only [distinct]
      cases hashed : heap.hash? element with
      | error fault =>
          rw [hashed] at each
          simp only [addMember, hashed]
          rintro ⟨⟩
          exact each.1 rfl
      | ok hash =>
          simp only [addMember, hashed]
          exact ih each.2

/-- A collection counts what it will become, unless a hash is out of reach. -/
theorem size_always (accepted : kind.collection.accepts (heap.look value) = true)
    (listed : heap.iterate value = .ok elements)
    (hashable : ∀ element ∈ elements, heap.hash? element ≠ .error .tooDeep) :
    (kind.collection.size heap value).Always (· ≤ elements.length) := by
  have places := Gathering.length_of_iterate accepted listed
  have length : (Measure.length heap value).Always (· ≤ elements.length) := by
    simp only [Measure.length, places]
    exact Run.always_pure (Nat.le_refl _)
  cases kind with
  | array => exact length
  | set =>
      have within : heap.elements? value = some elements := by
        unfold iterate at listed
        split at listed
        next found =>
          cases listed
          exact found
        next => cases listed
      simp only [Collection.size, Gathering.collection, Collection.set, within]
      cases found : heap.distinct [] elements with
      | ok members =>
          refine Run.always_pure ?_
          simpa using Gathering.length_gather_le (Gathering.gather_set.trans found)
      | error fault =>
          have reached : heap.distinct [] elements ≠ .error .tooDeep := distinct_ne_tooDeep hashable
          rw [found] at reached
          cases fault <;> first | exact length | exact absurd rfl reached

end Sizes

end Documents

/-- A value is compared with a sample without further ado. -/
theorem Typed.fit_eq {type : ValueType} (typed : heap.Typed sample type) (value : Value) :
    ∃ fit, type.fit heap value sample = pure fit := by
  cases typed with
  | unchecked _ | elements _ _ | plain _ _ => exact ⟨_, rfl⟩
  | record _ =>
      simp only [ValueType.fit]
      split
      next => exact ⟨_, rfl⟩
      next =>
        split
        · exact ⟨_, rfl⟩
        · exact ⟨_, rfl⟩

section Sizing

/-- A sample without a size is a single value or a record. -/
theorem Ordinary.single_of_unsized (ordinary : heap.Ordinary sample)
    (unsized : heap.hasSize sample = false) (plain : heap.isRecord sample = false) :
    sample.isSingle = true := by
  cases ordinary with
  | single single => exact single
  | object _ shape | tuple shape | list shape _ => simp [hasSize, length?, shape] at unsized
  | record shape => simp [isRecord, shape] at plain
  | set shape _ => cases (hasSize_of_gathering shape).symm.trans unsized

/-- A document of a single value's kind is a scalar. -/
theorem Json.isScalar_of_single (json : heap.Json value) (single : sample.isSingle = true)
    (fits : heap.shapeName sample = heap.shapeName value) : value.isScalar = true := by
  rw [shapeName, shapeName, look_of_isSingle single] at fits
  rcases json.cases_look with scalar | ⟨_, shape⟩ | ⟨_, shape⟩
  · exact scalar
  all_goals
    rw [shape] at fits
    cases sample <;> simp_all [Value.shapeName, Value.isSingle]

/-- A document of a single value's kind is null or a number where the value has no size. -/
theorem Json.numeric (json : heap.Json value) (single : sample.isSingle = true)
    (unsized : heap.hasSize sample = false)
    (fits : heap.shapeName sample = heap.shapeName value) :
    value = .null ∨ ∃ quantity, (heap.look value).quantity? = some quantity := by
  have scalar := json.isScalar_of_single single fits
  rw [look_of_isScalar scalar]
  rw [shapeName, shapeName, look_of_isSingle single, look_of_isScalar scalar] at fits
  rw [hasSize, length?, look_of_isSingle single] at unsized
  cases value with
  | null => exact .inl rfl
  | bool _ | int _ | float _ => exact .inr ⟨_, rfl⟩
  | text _ => cases sample <;> simp_all [Value.shapeName, Value.isSingle]
  | _ => cases scalar

/-- A document of a sized sample's kind has a size. -/
theorem Json.sized (json : heap.Json value) (ordinary : heap.Ordinary sample)
    (plain : heap.gathering? sample = none) (sized : heap.hasSize sample = true)
    (fits : heap.shapeName sample = heap.shapeName value) :
    ∃ count, heap.length? value = some count := by
  rcases json.cases_look with scalar | ⟨_, shape⟩ | ⟨_, shape⟩
  · rw [shapeName, shapeName, look_of_isScalar scalar] at fits
    cases ordinary with
    | single single =>
        rw [hasSize, length?, look_of_isSingle single] at sized
        rw [look_of_isSingle single] at fits
        rw [length?, look_of_isScalar scalar]
        cases sample <;> simp_all [Value.isSingle]
        cases value <;> simp_all [Value.shapeName, Value.isScalar]
    | object _ shape | tuple shape =>
        rw [shape] at fits
        cases value <;> simp_all [Value.shapeName, Value.isScalar]
    | list shape _ => simp [gathering?, shape] at plain
    | set shape _ => cases plain.symm.trans shape
    | record shape => simp [hasSize, length?, shape] at sized
  · exact ⟨_, by rw [length?, shape]⟩
  · exact ⟨_, by rw [length?, shape]⟩

end Sizing

/-- The checks for a sample can be applied to the value: it has a text, a size if the sample has
one, and is a number or null if bounds are on the value itself. -/
structure Checkable (heap : Heap) (type : ValueType) (sample value : Value) : Prop where
  shown : ∃ text, heap.display value = .ok text
  sized : heap.hasSize sample = true →
    (type.measure.size heap value).Always (fun count => Number.Writable count)
  numeric : heap.hasSize sample = false → heap.isRecord sample = false →
    value = .null ∨ ∃ quantity, (heap.look value).quantity? = some quantity

end Heap

/-- Nothing that is declared for the field can break down on what documents hold: regular
expressions are such, bounds are numbers and not on records, and values to fall back on are
documents in the place of single values. -/
structure Field.Steady (heap : Heap) (field : Field) : Prop where
  sample : heap.Ordinary field.sample
  legible : heap.Legible field.sample
  custom : field.declaration.custom = none
  regex {expression} : field.declaration.regex = some expression →
    (∃ text, heap.look expression = .text text) ∨ ∃ pattern, heap.look expression = .pattern pattern
  bounds {side limit} : field.declaration.bound side = some limit →
    heap.isRecord field.sample = false ∧ heap.Legible limit ∧
      ∃ quantity, (heap.look limit).quantity? = some quantity
  fallback {value} : field.declaration.fallback = some value →
    field.sample.isSingle = true ∧ heap.Json value ∧ heap.Legible value

/-- The answer of a check that is not the application's. -/
def Verdict.IsOwn : Verdict → Prop
  | .pass => True
  | .failure fail => fail.code ∈ Check.codes
  | .other _ => False

namespace Field

variable {heap : Heap} {field : Field} {value : Value} {check : Check}

/-- What is compared with a limit passes or is out of bounds, if it and the limit have texts. -/
theorem beyond_always {side : Side} {name unit subject limit : String} {answer : Bool}
    {compared : Except Fault Bool} {shown bound : Except Fault String}
    (ordered : compared = .ok answer) (seen : shown = .ok subject) (told : bound = .ok limit) :
    (do
      if ← (liftM compared : Run Bool) then
        return .failure (Check.outOfBounds side name (← liftM shown) (← liftM bound) unit)
      else return .pass : Run Verdict).Always Verdict.IsOwn := by
  refine (Run.always_lift ordered).bind fun beyond _ => ?_
  split
  next =>
    refine (Run.always_lift seen).bind fun _ _ => (Run.always_lift told).bind fun _ _ => ?_
    exact Run.always_pure
      (by simp [Verdict.IsOwn, Check.outOfBounds_code, Check.side_code_mem])
  next => exact Run.always_pure trivial

/-- No check of the field breaks down, and each answers for itself. -/
theorem check_always (compiled : field.CompiledBy Catalogue.builtIn heap)
    (steady : field.Steady heap) (checkable : heap.Checkable field.type field.sample value)
    (member : check ∈ field.checks) : (check.apply field.name heap value).Always Verdict.IsOwn := by
  obtain ⟨shown, seen⟩ := checkable.shown
  cases Check.asked_of_compile compiled.checked member with
  | @bySize side limit declared sized =>
      obtain ⟨_, legible, quantity, counts⟩ := steady.bounds declared
      obtain ⟨text, displayed⟩ := Heap.display_succeeds legible
      refine (checkable.sized sized).bind fun count writable => ?_
      have number : (heap.look (.int count)).quantity? = some (.ofInt count) := rfl
      have ordered : heap.order side (.int count) limit = .ok _ :=
        (Heap.order_of_quantity number).mpr ⟨quantity, counts, rfl⟩
      exact beyond_always ordered (numeral_of_writable writable) displayed
  | @byValue side limit declared unsized =>
      obtain ⟨single, legible, quantity, counts⟩ := steady.bounds declared
      obtain ⟨text, displayed⟩ := Heap.display_succeeds legible
      simp only [Check.apply, compiled.typed.compared, pure_bind]
      split
      next => exact Run.always_pure trivial
      next subject given =>
        obtain ⟨number, measured⟩ := (checkable.numeric unsized single).resolve_left given
        have ordered : heap.order side value limit = .ok _ :=
          (Heap.order_of_quantity measured).mpr ⟨quantity, counts, rfl⟩
        exact beyond_always ordered seen displayed
  | allowed _ _ =>
      simp only [Check.apply]
      split
      · exact Run.always_pure trivial
      · refine (Run.always_lift seen).bind fun text _ => ?_
        exact Run.always_pure (by simp [Verdict.IsOwn, Failure.allowed, Check.codes])
  | matching _ _ =>
      refine (Run.always_lift seen).bind fun text _ => ?_
      split
      · exact Run.always_pure trivial
      · exact Run.always_pure (by simp [Verdict.IsOwn, Failure.regex, Check.codes])
  | noRegex declared unwritten uncompiled =>
      obtain ⟨text, shape⟩ | ⟨pattern, shape⟩ := steady.regex declared
      · exact absurd shape (unwritten text)
      · exact absurd shape (uncompiled pattern)
  | integer _ _ _ =>
      simp only [Check.apply]
      split
      · exact Run.always_pure trivial
      · refine (Run.always_lift seen).bind fun text _ => ?_
        exact Run.always_pure (by simp [Verdict.IsOwn, Failure.integer, Check.codes])
  | custom declared => cases steady.custom.symm.trans declared

theorem firstFailureOf_always {name : String} {checks : List Check}
    (each : ∀ check ∈ checks, (check.apply name heap value).Always Verdict.IsOwn) :
    (firstFailureOf name heap value checks).Always Verdict.IsOwn := by
  induction checks with
  | nil => exact Run.always_pure trivial
  | cons check rest ih =>
      simp only [List.forall_mem_cons] at each
      refine each.1.bind fun verdict own => ?_
      cases verdict with
      | pass => exact ih each.2
      | failure fail => exact Run.always_pure own
      | other _ => exact own.elim

theorem firstFailure_always (compiled : field.CompiledBy Catalogue.builtIn heap)
    (steady : field.Steady heap) (checkable : heap.Checkable field.type field.sample value) :
    (field.firstFailure heap value).Always Verdict.IsOwn :=
  firstFailureOf_always fun _ member => check_always compiled steady checkable member

end Field

end Exemplar
