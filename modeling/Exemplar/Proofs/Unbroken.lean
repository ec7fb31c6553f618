import Exemplar.Proofs.Idempotence
import Exemplar.Proofs.Recursion
import Exemplar.Proofs.Steadiness

/-!
Runs that nothing breaks. If the fields are steady, the input is a document and the hooks come to an
end, then so does the processing of every field on the way, to whatever depth, and no field fails
with the code that stands for a fault. Nor is any element or optional object left out for one.
-/

namespace Exemplar

/-- A failure that no fault has turned into. -/
def Failure.IsKnown (fail : Failure) : Prop := fail.code ≠ "UNKNOWN"

theorem Failure.isKnown_of_codes {fail : Failure} (own : fail.code ∈ Check.codes) :
    fail.IsKnown := by
  simp only [Check.codes, List.mem_cons, List.not_mem_nil, or_false] at own
  unfold IsKnown
  rcases own with same | same | same | same | same <;> simp [same]

@[simp] theorem Failure.isKnown_type {path reason : String} :
    (Failure.type path reason).IsKnown := by
  simp [IsKnown, Failure.type]

@[simp] theorem Failure.isKnown_missing {path : String} : (Failure.missing path).IsKnown := by
  simp [IsKnown, missing]

/-- What is made of the data is no fault. -/
def Outcome.IsKnown {α : Type} (outcome : Except Failure α) : Prop :=
  ∀ fail, outcome = .error fail → fail.IsKnown

@[simp] theorem Outcome.isKnown_ok {α : Type} {value : α} :
    Outcome.IsKnown (.ok value) := by
  rintro _ ⟨⟩

@[simp] theorem Outcome.isKnown_error {α : Type} {fail : Failure} :
    Outcome.IsKnown (.error fail : Except Failure α) ↔ fail.IsKnown := by
  simp [IsKnown]

def FieldOutcome.IsKnown (outcome : FieldOutcome) : Prop :=
  ∀ fail, outcome = .failed fail → fail.IsKnown

@[simp] theorem FieldOutcome.isKnown_omitted : FieldOutcome.omitted.IsKnown := by
  rintro _ ⟨⟩

@[simp] theorem FieldOutcome.isKnown_stored {value : Value} :
    (FieldOutcome.stored value).IsKnown := by
  rintro _ ⟨⟩

@[simp] theorem FieldOutcome.isKnown_failed {fail : Failure} :
    (FieldOutcome.failed fail).IsKnown ↔ fail.IsKnown := by
  simp [IsKnown]

/-- Hooks that come to an end without raising anything. -/
structure Configuration.Total (config : Configuration) : Prop where
  keys : ∀ name, (config.keys.keyOf name).Always fun _ => True
  sink : ∀ text, (config.sink.report text).Always fun _ => True
  finisher : ∀ heap record, (config.finisher.finish heap record).Always fun _ => True

namespace Validation

variable {world : World} {config : Configuration} {root : Schema} {field : Field} {path : String}
  {value : Value} {parse : Parse}

theorem parseField_always (total : config.Total)
    (parsed : (parse field.type path field.sample value).Always Outcome.IsKnown) :
    (parseField parse config field path value).Always FieldOutcome.IsKnown := by
  refine parsed.bind fun outcome known => ?_
  cases outcome with
  | ok stored => exact Run.always_pure (by simp)
  | error fail =>
      dsimp only
      split
      next =>
        exact (total.sink _).bind fun _ _ => Run.always_pure (by simp)
      next =>
        exact Run.always_pure (by simpa using known)

/-- With an outcome for every value that fits, there is one for every value that can be checked. -/
theorem settleValue_always (total : config.Total)
    (compiled : field.CompiledBy Catalogue.builtIn world.heap) (steady : field.Steady world.heap)
    (checkable : ∀ {before fit after},
      (field.type.fit world.heap value field.sample).Yields before fit after →
      (∀ reason, fit ≠ .refused reason) →
      world.heap.Checkable field.type field.sample value)
    (parsed : ∀ {before after},
      (field.type.fit world.heap value field.sample).Yields before .toParse after →
      (parse field.type path field.sample value).Always Outcome.IsKnown) :
    (settleValue parse world config field path value).Always FieldOutcome.IsKnown := by
  obtain ⟨fit, compared⟩ := compiled.typed.fit_eq value
  have fitted (trace : Trace) :
      (field.type.fit world.heap value field.sample).Yields trace fit trace := by
    rw [compared]
    exact Run.yields_pure.mpr ⟨rfl, rfl⟩
  unfold settleValue
  rw [compared, pure_bind]
  have check (fits : ∀ reason, fit ≠ .refused reason) :
      (checkField parse world config field path value fit).Always FieldOutcome.IsKnown := by
    refine (Field.firstFailure_always compiled steady (checkable (fitted []) fits)).bind
      fun verdict own => ?_
    cases verdict with
    | other _ => exact own.elim
    | failure fail =>
        have located : (Field.locate world.heap path (.failure fail)).Always
            (· = some (fail.movedTo path)) := Run.always_pure rfl
        refine located.follow ?_
        exact Run.always_pure (FieldOutcome.isKnown_failed.mpr (Failure.isKnown_of_codes own))
    | pass =>
        have located : (Field.locate world.heap path .pass).Always (· = none) :=
          Run.always_pure rfl
        refine located.follow ?_
        cases fit with
        | refused reason => exact absurd rfl (fits reason)
        | settled => exact Run.always_pure (by simp)
        | toParse => exact parseField_always total (parsed (fitted []))
  cases fit with
  | refused reason => exact Run.always_pure (by simp)
  | settled | toParse => exact check (by simp)

/-- What a field can come to look at: a document, nested to some depth unless the field parses none
of it, or what stands in for it. -/
inductive Faces (world : World) (field : Field) (depth : Nat) : Value → Prop
  | document {value : Value} : world.heap.Json value → world.heap.Legible value →
      IsPlain world field.sample ∨ world.heap.Within depth value → Faces world field depth value
  | standIn {value : Value} : world.heap.StandsIn field.sample value → Faces world field depth value

section Facing

variable {depth : Nat} {before after : Trace}

theorem isPlain_of_isSingle {sample : Value} (single : sample.isSingle = true) :
    IsPlain world sample := by
  have shape : world.heap.look sample = sample := Heap.look_of_isSingle single
  unfold IsPlain Heap.gathering? Heap.isRecord
  rw [shape]
  cases sample <;> first | exact ⟨rfl, rfl⟩ | cases single

theorem Faces.substitute (faces : Faces world field depth value)
    (steady : field.Steady world.heap) :
    Faces world field depth (substitute world.heap field.declaration value) := by
  rcases substitute_cases world.heap field.declaration value with same | replaced
  · rwa [same]
  · obtain ⟨single, json, legible⟩ := steady.fallback replaced
    exact .document json legible (.inl (isPlain_of_isSingle single))

theorem size_of_document {kind : Gathering} (json : world.heap.Json value)
    (legible : world.heap.Legible value)
    (accepted : kind.collection.accepts (world.heap.look value) = true) :
    (kind.collection.size world.heap value).Always (fun count => Number.Writable count) := by
  obtain ⟨elements, shape⟩ : ∃ elements, world.heap.look value = .list elements := by
    rcases json.cases_look with scalar | list | ⟨entries, shape⟩
    · rw [Heap.look_of_isScalar scalar] at accepted
      cases kind <;> cases value <;> simp_all [Value.isScalar, Gathering.collection,
        Collection.array, Collection.set, Collection.isSequence, Collection.isAnySet]
    · exact list
    · rw [shape] at accepted
      cases kind <;> cases accepted
  have listed : world.heap.iterate value = .ok elements := by
    simp [Heap.iterate, Heap.elements?, shape]
  have hashable : ∀ element ∈ elements, world.heap.hash? element ≠ .error .tooDeep := by
    intro element member
    exact (json.inside (by rw [shape]; exact member)).hash_ne_tooDeep
  have writable := legible.sized value elements.length .self (by rw [Heap.length?, shape])
  exact (Heap.size_always accepted listed hashable).mono fun _ less => writable.of_le less

theorem checkable_of_document (compiled : field.CompiledBy Catalogue.builtIn world.heap)
    (steady : field.Steady world.heap) (json : world.heap.Json value)
    (legible : world.heap.Legible value) {fit : Fit}
    (fitted : (field.type.fit world.heap value field.sample).Yields before fit after)
    (fits : ∀ reason, fit ≠ .refused reason) :
    world.heap.Checkable field.type field.sample value := by
  have typed := compiled.typed
  have toParse : field.type ≠ .record → fit = .toParse := by
    intro nested
    cases fit with
    | refused reason => exact absurd rfl (fits reason)
    | settled => exact absurd (record_of_settled typed fitted).1 nested
    | toParse => rfl
  refine ⟨Heap.display_succeeds legible, fun sized => ?_, fun unsized single => ?_⟩
  · generalize field.type = type at typed fitted toParse
    cases typed with
    | record shape => simp [Heap.hasSize, Heap.length?, shape] at sized
    | plain none single =>
        cases toParse (by simp)
        have fits := shapeName_of_toParse (.plain none single) none single fitted
        obtain ⟨count, places⟩ := json.sized steady.sample none sized fits
        simp only [ValueType.measure, Measure.plain, Measure.length, places]
        exact Run.always_pure (legible.sized value count .self places)
    | @unchecked _ kind shape | @elements _ kind _ _ _ shape _ =>
        cases toParse (by simp)
        have accepted : kind.collection.accepts (world.heap.look value) = true :=
          Collection.fit_eq_toParse.mp (Run.yields_pure.mp fitted).1.symm
        exact size_of_document json legible accepted
  · have sample := steady.sample.single_of_unsized unsized single
    obtain ⟨bare, plain⟩ : IsPlain world field.sample := isPlain_of_isSingle sample
    have other : field.type ≠ .record := by simp [typed.unique (.plain bare plain)]
    cases toParse other
    exact json.numeric sample unsized (shapeName_of_toParse typed bare plain fitted)

theorem checkable_of_standIn (compiled : field.CompiledBy Catalogue.builtIn world.heap)
    (steady : field.Steady world.heap) (stands : world.heap.StandsIn field.sample value) :
    world.heap.Checkable field.type field.sample value := by
  have typed := compiled.typed
  have legible := steady.legible
  have length (bare : world.heap.gathering? field.sample = none)
      (same : world.heap.length? value = world.heap.length? field.sample)
      (sized : world.heap.hasSize field.sample = true) :
      (field.type.measure.size world.heap value).Always (fun count => Number.Writable count) := by
    generalize field.type = type at typed
    cases typed with
    | unchecked shape | elements shape _ => cases bare.symm.trans shape
    | record shape => simp [Heap.hasSize, Heap.length?, shape] at sized
    | plain _ _ =>
        obtain ⟨count, places⟩ := Option.isSome_iff_exists.mp sized
        simp only [ValueType.measure, Measure.plain, Measure.length, same.trans places]
        exact Run.always_pure (legible.sized _ count .self places)
  have numeric (same : value = field.sample)
      (unsized : world.heap.hasSize field.sample = false)
      (single : world.heap.isRecord field.sample = false) :
      value = .null ∨ ∃ quantity, (world.heap.look value).quantity? = some quantity := by
    have sample := steady.sample.single_of_unsized unsized single
    rw [same, Heap.look_of_isSingle sample]
    rw [Heap.hasSize, Heap.length?, Heap.look_of_isSingle sample] at unsized
    cases shape : field.sample <;> simp_all [Value.isSingle, Value.quantity?]
  cases stands with
  | itself bare => exact ⟨Heap.display_succeeds legible, length bare rfl, numeric rfl⟩
  | copied shareable =>
      refine ⟨?_, length shareable.bare (Heap.length?_copied legible.written), fun unsized _ => ?_⟩
      · rw [Heap.display_copied legible.written]
        exact Heap.display_succeeds legible
      · cases shareable.sized.symm.trans unsized
  | @empty kind elements shape =>
      refine ⟨?_, fun _ => ?_, fun unsized _ => ?_⟩
      · cases kind <;> exact ⟨_, rfl⟩
      · rw [typed.measured shape]
        refine (Heap.size_always (Heap.accepts_of_gathering Heap.gathering_wrap)
          (Heap.elements_of_gathering Heap.gathering_wrap) (by simp)).mono fun count less => ?_
        exact Number.writable_zero.of_le less
      · cases (Heap.hasSize_of_gathering shape).symm.trans unsized

theorem Faces.checkable (compiled : field.CompiledBy Catalogue.builtIn world.heap)
    (steady : field.Steady world.heap) (faces : Faces world field depth value) {fit : Fit}
    (fitted : (field.type.fit world.heap value field.sample).Yields before fit after)
    (fits : ∀ reason, fit ≠ .refused reason) :
    world.heap.Checkable field.type field.sample value := by
  cases faces with
  | document json legible _ =>
      exact checkable_of_document compiled steady json legible fitted fits
  | standIn stands => exact checkable_of_standIn compiled steady stands

end Facing

section Parsing

/-- A value that fits and can be parsed to a depth: there is nothing to go into, or there are no
parts, or it is a document that is nested less deep. -/
structure Parsable (world : World) (root : Schema) (limit : Nat) (type : ValueType)
    (sample value : Value) : Prop where
  typed : world.heap.Typed sample type
  covered : Covered world root sample
  ordinary : world.heap.Ordinary sample
  fits : ∃ before after, (type.fit world.heap value sample).Yields before .toParse after
  content : IsPlain world sample ∨
    (0 < limit ∧ world.heap.isRecord sample = false ∧ (world.heap.look value).parts = []) ∨
    ∃ depth, depth < limit ∧ world.heap.Within depth value ∧ world.heap.Json value ∧
      world.heap.Legible value

/-- An object that can be validated: a document that is nested no deeper than the run can go, for a
schema that the root uses. -/
structure Call.Sound (world : World) (root : Schema) (call : Call) : Prop where
  used : world.Uses root call.schema
  json : world.heap.Json call.data
  legible : world.heap.Legible call.data
  within : ∃ depth, depth ≤ call.limit ∧ world.heap.Within depth call.data

variable {limit depth : Nat} {type inner : ValueType} {sample representative item : Value}
  {kind : Gathering} {rest values : List Value} {before after : Trace}

/-- What is gone through is a document again, nested less deep. -/
theorem Parsable.inside (parsable : Parsable world root (limit + 1) type sample value)
    (shape : world.heap.gathering? sample = some (kind, representative :: rest))
    (listed : world.heap.iterate value = .ok values) (member : item ∈ values) :
    ∃ depth, depth < limit ∧ world.heap.Within depth item ∧ world.heap.Json item ∧
      world.heap.Legible item := by
  obtain ⟨_, _, fitted⟩ := parsable.fits
  have accepted := accepted_of_toParse parsable.typed shape fitted
  have part := Heap.mem_parts_of_iterate accepted listed member
  rcases parsable.content with plain | ⟨_, _, bare⟩ | ⟨depth, less, within, json, legible⟩
  · cases plain.1.symm.trans shape
  · simp [bare] at part
  · obtain ⟨depth, rfl⟩ := within.succ
    exact ⟨depth, by omega, within item part, json.inside part, legible.inside part⟩

theorem Parsable.element (parsable : Parsable world root (limit + 1) type sample value)
    (shape : world.heap.gathering? sample = some (kind, representative :: rest))
    (typed : world.heap.Typed representative inner)
    (listed : world.heap.iterate value = .ok values) (member : item ∈ values)
    (fit : (inner.fit world.heap item representative).Yields before .toParse after) :
    Parsable world root limit inner representative item where
  typed := typed
  covered := parsable.covered.representative shape
  ordinary := parsable.ordinary.representative shape
  fits := ⟨before, after, fit⟩
  content := .inr (.inr (parsable.inside shape listed member))

theorem Parsable.object {recordClass : RecordClass} {fields : Named Value} {location : String}
    (parsable : Parsable world root (limit + 1) .record sample value)
    (shape : world.heap.look sample = .record recordClass fields) :
    Call.Sound world root ⟨limit, world.schema recordClass.number, location, value, before⟩ := by
  have record : world.heap.isRecord sample = true := by simp [Heap.isRecord, shape]
  rcases parsable.content with plain | ⟨_, other, _⟩ | ⟨depth, less, within, json, legible⟩
  · cases record.symm.trans plain.2
  · cases record.symm.trans other
  · obtain ⟨used, _⟩ := parsable.covered recordClass (.record shape)
    exact ⟨used, json, legible, depth, Nat.le_of_lt_succ less, within⟩

theorem Faces.parsable (faces : Faces world field depth value)
    (compiled : field.CompiledBy Catalogue.builtIn world.heap)
    (covered : Covered world root field.sample) (steady : field.Steady world.heap)
    (fit : (field.type.fit world.heap value field.sample).Yields before .toParse after)
    (deep : depth < limit) : Parsable world root limit field.type field.sample value := by
  refine ⟨compiled.typed, covered, steady.sample, ⟨before, after, fit⟩, ?_⟩
  cases faces with
  | document json legible nested =>
      rcases nested with plain | within
      · exact .inl plain
      · exact .inr (.inr ⟨depth, deep, within, json, legible⟩)
  | standIn stands =>
      cases stands with
      | copied shareable => exact .inl ⟨shareable.bare, shareable.plain⟩
      | @empty kind _ shape =>
          exact .inr (.inl ⟨by omega, Heap.isRecord_of_gathering shape, by cases kind <;> rfl⟩)
      | itself bare =>
          refine .inl ⟨bare, ?_⟩
          have typed := compiled.typed
          generalize field.type = type at typed fit
          cases typed with
          | plain _ single => exact single
          | record _ => exact absurd fit not_toParse_of_sample
          | unchecked shape | elements shape _ => cases bare.symm.trans shape

end Parsing

section Going

variable {depth limit : Nat} {location : String} {entries : List (Value × Value)}
  {fields : List Field} {stored : Named Value}

/-- With an outcome for every value that the field can come to look at, the field has one. -/
theorem settleField_always (total : config.Total)
    (compiled : field.CompiledBy Catalogue.builtIn world.heap) (steady : field.Steady world.heap)
    (inside : ∀ part ∈ Value.interleave entries,
      world.heap.Json part ∧ world.heap.Legible part ∧ world.heap.Within depth part)
    (parsed : ∀ {value before after}, Faces world field depth value →
      (field.type.fit world.heap value field.sample).Yields before .toParse after →
      (parse field.type path field.sample value).Always Outcome.IsKnown) :
    (settleField parse world config field path entries).Always FieldOutcome.IsKnown := by
  have settled {given : Value} (faces : Faces world field depth given) :
      (settleInput parse world config field path (.inr given)).Always FieldOutcome.IsKnown := by
    have faces := faces.substitute steady
    exact settleValue_always total compiled steady
      (fun fitted fits => faces.checkable compiled steady fitted fits)
      (fun fitted => parsed faces fitted)
  rw [settleField_eq_keyOf]
  refine (total.keys field.name).bind fun key _ => ?_
  by_cases present : entryUnder key entries = .null
  · rw [present, fromEntry_null, withoutInput]
    cases field.declaration.mode with
    | optional => exact Run.always_pure (by simp)
    | required => exact Run.always_pure (by simp)
    | defaulted =>
        dsimp only
        rw [bind_assoc]
        refine (compiled.typed.standIn_always steady.sample.copyable).bind fun value stands => ?_
        rw [pure_bind]
        exact settled (.standIn stands)
  · rw [fromEntry_of_ne_null present, pure_bind]
    obtain ⟨json, legible, within⟩ := inside _ (mem_interleave_of_entryUnder present)
    exact settled (.document json legible (.inr within))

theorem guardField_always
    (settled : (settleField parse world config field path entries).Always FieldOutcome.IsKnown) :
    (guardField parse world config field path entries).Always FieldOutcome.IsKnown := by
  intro before
  obtain ⟨outcome, after, ran, known⟩ := settled before
  exact ⟨outcome, after, guardField_yields.mpr (.inl ran), known⟩

theorem settleFields_always
    (each : ∀ field ∈ fields, (guardField parse world config field (fieldPath location field.name)
      entries).Always FieldOutcome.IsKnown) :
    (settleFields parse world config location entries fields stored).Always Outcome.IsKnown := by
  induction fields generalizing stored with
  | nil => exact Run.always_pure (by simp)
  | cons field rest ih =>
      simp only [List.forall_mem_cons] at each
      refine each.1.bind fun outcome known => ?_
      cases outcome with
      | omitted => exact ih each.2
      | stored value => exact ih each.2
      | failed fail =>
          exact Run.always_pure (by simpa using known)

/-- All fields that one schema uses can be processed without breaking down. -/
def SteadyFields (world : World) (root : Schema) : Prop :=
  ∀ {schema compiled field}, world.Uses root schema → schema.compiled = some compiled →
    field ∈ compiled.fields → field.Steady world.heap

/-- Every value that can be parsed to the limit has an outcome. -/
def ParseKnown (world : World) (config : Configuration) (root : Schema) (limit : Nat) : Prop :=
  ∀ {type sample value} path, Parsable world root limit type sample value →
    (parseTo world config limit type path sample value).Always Outcome.IsKnown

variable {call : Call}

/-- What an object that can be validated holds are documents again, nested less deep. -/
theorem Call.Sound.inside (sound : call.Sound world root)
    (mapping : world.heap.look call.data = .mapping entries) :
    ∃ depth, depth < call.limit ∧ ∀ part ∈ Value.interleave entries,
      world.heap.Json part ∧ world.heap.Legible part ∧ world.heap.Within depth part := by
  obtain ⟨_, json, legible, depth, enough, within⟩ := sound
  obtain ⟨depth, rfl⟩ := within.succ
  refine ⟨depth, enough, fun part present => ?_⟩
  have part : part ∈ (world.heap.look call.data).parts := by
    rw [mapping]
    exact present
  exact ⟨json.inside part, legible.inside part, within _ part⟩

/-- The fields of an object that can be validated are processed without breaking down. -/
theorem Call.Sound.settleField_always {compiled : Compiled} (sound : call.Sound world root)
    (builtIn : world.BuiltIn root) (total : config.Total) (steady : SteadyFields world root)
    (known : ParseKnown world config root call.limit)
    (declared : call.schema.compiled = some compiled) (member : field ∈ compiled.fields)
    (mapping : world.heap.look call.data = .mapping entries) :
    (settleField (parseTo world config call.limit) world config field path entries).Always
      FieldOutcome.IsKnown := by
  obtain ⟨depth, deep, inside⟩ := sound.inside mapping
  have compiledBy := builtIn.fields sound.used declared member
  have covered := builtIn.covered sound.used declared member
  have fieldSteady := steady sound.used declared member
  exact Validation.settleField_always total compiledBy fieldSteady inside fun faces fit =>
    known _ (faces.parsable compiledBy covered fieldSteady fit deep)

theorem Call.Sound.run_always (sound : call.Sound world root) (builtIn : world.BuiltIn root)
    (total : config.Total) (steady : SteadyFields world root)
    (known : ParseKnown world config root call.limit) :
    (call.run world config).Always Outcome.IsKnown := by
  obtain ⟨compiled, declared⟩ := builtIn.compiled sound.used
  have demanded := Run.always_lift (demandCompiled_ok.mpr declared)
  have refused (location reason : String) :
      (pure (.error (.type location reason)) : Run Outcome).Always Outcome.IsKnown := by
    exact Run.always_pure (by simp)
  unfold Call.run validateTo validateWith
  dsimp only
  split
  next =>
    split
    next => exact Run.always_pure (by simp)
    next => exact demanded.bind fun _ _ => refused _ _
  next entries mapping =>
    refine demanded.follow ?_
    refine (settleFields_always fun field member => guardField_always
      (sound.settleField_always builtIn total steady known declared member mapping)).bind ?_
    intro result filled
    cases result with
    | error fail =>
        exact Run.always_pure (by simpa using filled)
    | ok fields =>
        exact (total.finisher _ _).bind fun _ _ => Run.always_pure (by simp)
  next => exact demanded.bind fun _ _ => refused _ _

section Items

variable {kind : Gathering} {inner : ValueType} {sample representative item : Value}
  {rest values gathered : List Value} {place : String} {index : Nat}

/-- What comes of an element: a collection of the kind again, or a failure that is no fault. -/
inductive ItemKnown (kind : Gathering) : Outcome → Prop
  | grown {elements : List Value} : ItemKnown kind (.ok (kind.wrap elements))
  | failed {fail : Failure} : fail.IsKnown → ItemKnown kind (.error fail)

theorem insert_always (hashed : kind = .set → ∃ hash, world.heap.hash? item = .ok hash) :
    (kind.collection.insert world.heap (kind.wrap gathered) item).Always fun next =>
      ∃ grown, next = kind.wrap grown := by
  have added : ∃ grown, kind.add world.heap gathered item = .ok grown := by
    cases kind with
    | array => exact ⟨_, rfl⟩
    | set =>
        obtain ⟨hash, found⟩ := hashed rfl
        simp only [Gathering.add, Heap.addMember, found]
        exact ⟨_, rfl⟩
  obtain ⟨grown, added⟩ := added
  exact fun before =>
    ⟨_, before, Gathering.insert_yields.mpr ⟨grown, added, rfl, rfl⟩, grown, rfl⟩

/-- A member of a set is a scalar, and so is what it is parsed as. -/
theorem hash_of_member {fitting fitted read : Trace} {parsed : Value}
    (single : representative.isSingle = true)
    (typed : world.heap.Typed representative inner) (json : world.heap.Json item)
    (fit : (inner.fit world.heap item representative).Yields fitting .toParse fitted)
    (ran : (parseTo world config limit inner place representative item).Yields fitted (.ok parsed)
      read) :
    ∃ hash, world.heap.hash? parsed = .ok hash := by
  obtain ⟨bare, plain⟩ : IsPlain world representative := isPlain_of_isSingle single
  have scalar := json.isScalar_of_single single (shapeName_of_toParse typed bare plain fit)
  cases typed.unique (.plain bare plain)
  rw [parseTo_primitive] at ran
  obtain ⟨same, _⟩ := Run.yields_pure.mp ran
  cases same
  rw [Primitive.hash_parse]
  exact Heap.hash_of_isScalar world.heap scalar

theorem parseItem_always {type : ValueType} (total : config.Total)
    (known : ParseKnown world config root limit)
    (parsable : Parsable world root (limit + 1) type sample value)
    (shape : world.heap.gathering? sample = some (kind, representative :: rest))
    (typed : world.heap.Typed representative inner)
    (listed : world.heap.iterate value = .ok values) (member : item ∈ values) :
    (parseItem (parseTo world config limit) world.heap config kind.collection inner representative
      place (kind.wrap gathered) item).Always (ItemKnown kind) := by
  obtain ⟨_, _, _, json, _⟩ := parsable.inside shape listed member
  obtain ⟨fit, compared⟩ := typed.fit_eq item
  have fitted (trace : Trace) :
      (inner.fit world.heap item representative).Yields trace fit trace := by
    rw [compared]
    exact Run.yields_pure.mpr ⟨rfl, rfl⟩
  unfold parseItem
  rw [compared, pure_bind]
  cases fit with
  | refused reason =>
      exact Run.always_pure (.failed Failure.isKnown_type)
  | settled =>
      obtain ⟨_, record⟩ := record_of_settled typed (fitted [])
      cases json.isRecord.symm.trans record
  | toParse =>
      have outcome := known place (parsable.element shape typed listed member (fitted []))
      refine outcome.reached.bind ?_
      rintro outcome ⟨own, before, read, parsed⟩
      cases outcome with
      | ok stored =>
          have hashed (set : kind = .set) : ∃ hash, world.heap.hash? stored = .ok hash := by
            subst set
            obtain ⟨_, _, ⟨rfl, rfl⟩, single⟩ := parsable.ordinary.single_of_set shape
            exact hash_of_member single typed json (fitted before) parsed
          refine (insert_always hashed).bind ?_
          rintro _ ⟨grown, rfl⟩
          exact Run.always_pure .grown
      | error fail =>
          dsimp only
          split
          next =>
            exact (total.sink _).bind fun _ _ => Run.always_pure .grown
          next => exact Run.always_pure (.failed (own fail rfl))

theorem parseElements_always {elements : List Value}
    (each : ∀ item ∈ elements, ∀ place gathered,
      (parseItem parse world.heap config kind.collection inner representative place
        (kind.wrap gathered) item).Always (ItemKnown kind)) :
    (parseElements parse world.heap config kind.collection inner representative path index
      (kind.wrap gathered) elements).Always Outcome.IsKnown := by
  induction elements generalizing index gathered with
  | nil => exact Run.always_pure (by simp)
  | cons item rest ih =>
      rw [parseElements_cons]
      simp only [List.forall_mem_cons] at each
      refine (each.1 _ gathered).bind ?_
      intro outcome known
      cases known with
      | grown => exact ih each.2
      | failed own => exact Run.always_pure (by simpa using own)

/-- A list takes all that it is given. -/
theorem insertAll_always {elements : List Value} :
    (insertAll world.heap .array (.list gathered) elements).Always Outcome.IsKnown := by
  induction elements generalizing gathered with
  | nil => exact Run.always_pure (by simp)
  | cons item rest ih =>
      have inserted : (Gathering.array.collection.insert world.heap (Gathering.array.wrap gathered)
          item).Always fun next => ∃ grown, next = Gathering.array.wrap grown :=
        insert_always (by simp)
      refine inserted.bind ?_
      rintro _ ⟨grown, rfl⟩
      exact ih

/-- Whatever a collection of this kind accepts can be gone through. -/
theorem iterate_of_accepts (accepted : kind.collection.accepts (world.heap.look value) = true) :
    ∃ values, world.heap.iterate value = .ok values := by
  unfold Heap.iterate Heap.elements?
  cases kind <;> cases shape : world.heap.look value <;>
    simp_all [Gathering.collection, Collection.array, Collection.set, Collection.isSequence,
      Collection.isAnySet]

theorem Parsable.parseTo_always {type : ValueType} (total : config.Total)
    (known : ParseKnown world config root limit)
    (parsable : Parsable world root (limit + 1) type sample value)
    (shape : world.heap.gathering? sample = some (kind, values)) :
    (parseTo world config (limit + 1) type path sample value).Always Outcome.IsKnown := by
  obtain ⟨_, _, fitted⟩ := parsable.fits
  have accepted := accepted_of_toParse parsable.typed shape fitted
  obtain ⟨elements, listed⟩ := iterate_of_accepts accepted
  have emptied : kind.collection.empty.Always (· = kind.wrap []) :=
    fun before => ⟨_, before, Gathering.empty_yields.mpr ⟨rfl, rfl⟩, rfl⟩
  have first : (kind.collection.first world.heap sample).Always (· = values.head?) :=
    fun before => ⟨_, before, (Heap.first_yields shape).mpr ⟨rfl, rfl⟩, rfl⟩
  have gone := Run.always_lift listed
  obtain ⟨rfl, rfl⟩ | ⟨representative, rest, element, rfl, rfl, inner⟩ :=
    parsable.typed.of_gathering shape
  · refine emptied.follow (first.follow (gone.follow ?_))
    cases kind with
    | array => exact insertAll_always
    | set =>
        obtain ⟨_, _, none, _⟩ := parsable.ordinary.single_of_set shape
        cases none
  · refine emptied.follow (first.follow ?_)
    simp only [List.head?_cons, pure_bind]
    refine gone.follow ?_
    exact parseElements_always fun item member place gathered =>
      parseItem_always total known parsable shape inner listed member

end Items

theorem parseTo_always_of_isPlain {type : ValueType} {sample : Value}
    (typed : world.heap.Typed sample type) (plain : IsPlain world sample) :
    (parseTo world config limit type path sample value).Always Outcome.IsKnown := by
  cases typed.unique (.plain plain.1 plain.2)
  rw [parseTo_primitive]
  exact Run.always_pure (by simp)

theorem parseKnown (builtIn : world.BuiltIn root) (total : config.Total)
    (steady : SteadyFields world root) (limit : Nat) : ParseKnown world config root limit := by
  -- Samples can lead back to their own schema; only the limit gets smaller on the way in.
  induction limit with
  | zero =>
      intro type sample value path parsable
      rcases parsable.content with plain | ⟨some, _⟩ | ⟨_, some, _⟩
      · exact parseTo_always_of_isPlain parsable.typed plain
      · omega
      · omega
  | succ limit ih =>
      intro type sample value path parsable
      have typed := parsable.typed
      cases typed with
      | plain none single => exact parseTo_always_of_isPlain parsable.typed ⟨none, single⟩
      | @record _ recordClass _ shape =>
          have sound : Call.Sound world root
              ⟨limit, world.schema recordClass.number, path, value, []⟩ := parsable.object shape
          rw [parseTo_record_eq shape]
          exact sound.run_always builtIn total steady ih
      | unchecked shape | elements shape _ => exact parsable.parseTo_always total ih shape

end Going

/-- What a value can be given up for while it is parsed, so that it or an element is left out: its
own failure, or that of an element inside of it. -/
inductive GivesUp (world : World) (config : Configuration) :
    Nat → ValueType → String → Value → Value → Trace → Failure → Prop
  | itself {limit type} {path : String} {sample value : Value} {before fail after} :
      (parseTo world config limit type path sample value).Yields before (.error fail) after →
      GivesUp world config limit type path sample value before fail
  | element {limit type collection element} {path : String} {sample value : Value}
      {before inner representative index gathered item rest reached fitted fail} :
      OfCollection type collection element →
      ComesTo (parseTo world config limit) world config collection element path sample value before
        inner representative index gathered item rest reached →
      (inner.fit world.heap item representative).Yields reached .toParse fitted →
      GivesUp world config limit inner (elementPath path index) representative item fitted fail →
      GivesUp world config (limit + 1) type path sample value before fail

section Visiting

variable {call nested : Call} {visit : Visit} {limit depth : Nat} {type inner : ValueType}
  {sample given representative gathered item : Value} {collection : Collection}
  {element : Option ValueType} {index : Nat} {rest : List Value} {entries : List (Value × Value)}
  {fail : Failure} {before middle after reached fitted : Trace}

/-- Each element that is come to can be parsed in its turn. -/
theorem Parsable.comesTo (parsable : Parsable world root (limit + 1) type sample value)
    (gathers : OfCollection type collection element)
    (comes : ComesTo parse world config collection element path sample value before inner
      representative index gathered item rest reached)
    (fit : (inner.fit world.heap item representative).Yields reached .toParse fitted) :
    Parsable world root limit inner representative item := by
  obtain ⟨_, first, resolved, listed, _⟩ := comes
  have typed := parsable.typed
  cases typed with
  | plain _ _ | record _ => cases gathers
  | unchecked shape =>
      cases gathers
      simp [Heap.first_yields shape] at first
  | elements shape known =>
      cases gathers
      obtain ⟨same, _⟩ := (Heap.first_yields shape).mp first
      cases same
      obtain ⟨rfl, _⟩ := Run.yields_pure.mp resolved
      exact parsable.element shape known listed (by simp) fit

theorem Enters.sound (enters : Enters world config limit type path sample value before call)
    (parsable : Parsable world root limit type sample value) : call.Sound world root := by
  induction enters with
  | object shape => exact parsable.object shape
  | inside gathers comes fit _ ih => exact ih (parsable.comesTo gathers comes fit)

theorem GivesUp.isKnown (givesUp : GivesUp world config limit type path sample value before fail)
    (known : ∀ limit, ParseKnown world config root limit)
    (parsable : Parsable world root limit type sample value) : fail.IsKnown := by
  induction givesUp with
  | itself failed => exact (known _ _ parsable).of_yields failed _ rfl
  | element gathers comes fit _ ih => exact ih (parsable.comesTo gathers comes fit)

/-- What a field of an object that can be validated has to parse can be parsed. -/
theorem Call.Sound.parsable (sound : call.Sound world root) (builtIn : world.BuiltIn root)
    (steady : SteadyFields world root) (reaches : call.Reaches world config visit)
    (admitted : Admitted world config visit.field visit.path visit.entries visit.before value
      .toParse middle) :
    Parsable world root visit.limit visit.field.type visit.field.sample value := by
  cases reaches with
  | @intro compiled entries done field rest stored _ declared mapping order settled =>
      have member : field ∈ compiled.fields := by rw [order]; simp
      obtain ⟨depth, deep, inside⟩ := sound.inside mapping
      have compiledBy := builtIn.fields sound.used declared member
      have covered := builtIn.covered sound.used declared member
      have fieldSteady := steady sound.used declared member
      obtain @⟨given, _, _, _, _, sought, fit, _⟩ := admitted
      suffices faces : Faces world field depth given from
        (faces.substitute fieldSteady).parsable compiledBy covered fieldSteady fit deep
      cases sought with
      | given _ present =>
          obtain ⟨json, legible, within⟩ := inside _ (mem_interleave_of_entryUnder present)
          exact .document json legible (.inr within)
      | standIn _ _ _ stood =>
          have stands := compiledBy.typed.standIn_always fieldSteady.sample.copyable
          exact .standIn (stands.of_yields stood)

/-- Whatever field is visited belongs to an object that can be validated. -/
theorem Visits.owner {through : Field → Prop} (visits : Visits world config through call visit)
    (builtIn : world.BuiltIn root) (steady : SteadyFields world root)
    (sound : call.Sound world root) :
    ∃ last : Call, last.Sound world root ∧ last.Reaches world config visit := by
  induction visits with
  | own reaches => exact ⟨_, sound, reaches⟩
  | inside reaches admitted enters _ _ ih =>
      exact ih (enters.sound (sound.parsable builtIn steady reaches admitted))

end Visiting

end Validation

open Validation in
/-- Nothing breaks down where samples, bounds, fallbacks and data are what documents are made of
and the hooks come to an end. A run then has an outcome, and it is not a failure with the code that
stands for faults. No field that is visited on the way breaks down, to whatever depth, and what is
given up while the field's value is parsed is not given up for a fault either. -/
theorem World.validateAt_never_unknown {world : World} {config : Configuration} {schema : Schema}
    {location : String} {data : Value} (builtIn : world.BuiltIn schema)
    (steady : ∀ {used compiled field}, world.Uses schema used → used.compiled = some compiled →
      field ∈ compiled.fields → field.Steady world.heap)
    (total : config.Total) (json : world.heap.Json data) (legible : world.heap.Legible data) :
    (∀ before, ∃ outcome after,
      (world.validateAt config schema location data).Yields before outcome after ∧
      ∀ fail, outcome = .error fail → fail.code ≠ "UNKNOWN") ∧
    ∀ before visit,
      Visits world config (fun _ => True) ⟨limit world data, schema, location, data, before⟩
        visit →
      (∀ fault after, ¬ (visit.settle world config).Breaks visit.before fault after) ∧
      ∀ value middle fail,
        Admitted world config visit.field visit.path visit.entries visit.before value .toParse
          middle →
        GivesUp world config visit.limit visit.field.type visit.path visit.field.sample value
          middle fail →
        fail.code ≠ "UNKNOWN" := by
  have known : ∀ limit, ParseKnown world config schema limit := parseKnown builtIn total steady
  have sound (before : Trace) :
      Call.Sound world schema ⟨limit world data, schema, location, data, before⟩ :=
    ⟨.root, json, legible, _, by simp only [limit, Heap.reach]; omega, json.finite.bounded⟩
  constructor
  · intro before
    exact (sound before).run_always builtIn total steady (known _) before
  · intro before visit visits
    obtain ⟨last, lastSound, reaches⟩ := visits.owner builtIn steady (sound before)
    refine ⟨fun fault after => ?_, fun value middle fail admitted givesUp => ?_⟩
    · cases reaches with
      | @intro compiled _ _ field _ _ _ declared mapping order _ =>
          have member : field ∈ compiled.fields := by rw [order]; simp
          exact (lastSound.settleField_always builtIn total steady (known _) declared member
            mapping).not_breaks
    · exact givesUp.isKnown known (lastSound.parsable builtIn steady reaches admitted)

namespace Branches

theorem total : (world.config 0).Total where
  keys _ := Run.always_pure trivial
  sink _ _ := ⟨(), _, Run.yields_record.mpr rfl, trivial⟩
  finisher _ _ := Run.always_pure trivial

/-- What the samples, the bounds, the fallback and the data are made of. -/
def values : List Value :=
  [data, .object [("kind", .text "root"), ("count", .int 7), ("marks", .list [])],
    .list [.int 3, three, .int 4], .list [], .text "kind", .text "count", .text "marks",
    .text "next", .text "twig", .text "root", three, .int 3, .int 4, .int 7, .ref 0, .ref 1,
    .text "", .int 0, .text "leaf", .int 2]

theorem legible {value : Value} (member : value ∈ values) : world.heap.Legible value := by
  refine .of_closed member fun inner member => ?_
  simp only [values, List.mem_cons, List.not_mem_nil, or_false] at member
  rcases member with rfl | rfl | rfl | rfl | rfl | rfl | rfl | rfl | rfl | rfl | rfl | rfl | rfl |
    rfl | rfl | rfl | rfl | rfl | rfl | rfl
  all_goals
    refine ⟨by simp [data, three, Value.object], ?_, fun count counted => ?_, ?_⟩
    · first | trivial | exact Number.writable_of_lt_ten (by decide)
    · first
        | cases counted
          exact Number.writable_of_lt_ten (by decide)
        | cases counted
    · first
        | exact List.forall_mem_nil _
        | simp [values, data, three, Value.object, world, heap, Heap.look, Heap.cell, Value.parts,
            Value.interleave]

theorem steady {field : Field} (member : field ∈ fields) : field.Steady world.heap := by
  simp only [fields, List.mem_cons, List.not_mem_nil, or_false] at member
  rcases member with rfl | rfl | rfl | rfl
  · exact {
      sample := .single rfl
      legible := legible (by simp [values])
      custom := rfl
      regex := by simp
      bounds := by
        rintro (_ | _) _ ⟨⟩
      fallback := by
        rintro _ ⟨⟩
        exact ⟨rfl, .scalar rfl, legible (by simp [values])⟩ }
  · exact {
      sample := .single rfl
      legible := legible (by simp [values])
      custom := rfl
      regex := by simp
      bounds := by
        rintro (_ | _) _ ⟨⟩
      fallback := by simp }
  · have shape : world.heap.gathering? (.ref 1) = some (.set, [.int 0]) := rfl
    exact {
      sample := .set shape rfl
      legible := legible (by simp [values])
      custom := rfl
      regex := by simp
      bounds := by
        rintro (_ | _) _ ⟨⟩
        exact ⟨rfl, legible (by simp [values]), _, rfl⟩
      fallback := by simp }
  · have shape : ∃ stored, world.heap.look (.ref 0) = .record branchClass stored := ⟨_, rfl⟩
    obtain ⟨_, shape⟩ := shape
    exact {
      sample := .record shape
      legible := legible (by simp [values])
      custom := rfl
      regex := by simp
      bounds := by
        rintro (_ | _) _ ⟨⟩
      fallback := by simp }

end Branches

open Validation in
/-- Counts are floats, marks are given twice, and the kind of the next branch is not listed. -/
theorem World.validateAt_never_unknown_branches :
    (∀ before, ∃ outcome after,
      (Branches.world.validateAt (Branches.world.config 0) Branches.schema "" Branches.data).Yields
        before outcome after ∧
      ∀ fail, outcome = .error fail → fail.code ≠ "UNKNOWN") ∧
    ∀ before visit,
      Visits Branches.world (Branches.world.config 0) (fun _ => True)
        ⟨limit Branches.world Branches.data, Branches.schema, "", Branches.data, before⟩ visit →
      ∀ fault after,
        ¬ (visit.settle Branches.world (Branches.world.config 0)).Breaks visit.before fault
          after := by
  have legible := Branches.legible (by simp [Branches.values] : Branches.data ∈ Branches.values)
  obtain ⟨known, visited⟩ := World.validateAt_never_unknown Branches.builtIn
    (Branches.selfContained.of_fields fun _ => Branches.steady) Branches.total Branches.json legible
  exact ⟨known, fun before visit visits => (visited before visit visits).1⟩

end Exemplar
