import Exemplar.Proofs.Idempotence

/-!
Samples survive the way through their plain forms. The sample of a schema is never validated, but
where it does not go round in circles, holds no null outside of mappings and passes the checks of
its own fields, it has a plain form, and that is validated to an equal record.
-/

namespace Exemplar

/-- No check of the field can tell the value from its plain form: of a scalar that is the scalar,
and of a mapping it is a mapping like it, which only the application's own check could tell from
it. -/
inductive Field.Blind (events : Event → Prop) (heap : Heap) (field : Field) (value : Value) : Prop
  | scalar : value.isScalar = true → Blind events heap field value
  | mapping {entries : List (Value × Value)} : heap.look value = .mapping entries →
      (∀ hook plain, field.declaration.custom = some hook → heap.plain value = .ok plain →
        (hook.check heap plain).Gives events .pass) → Blind events heap field value
  | bare : field.declaration.allowed = none → field.declaration.regex = none →
      field.declaration.custom = none → Blind events heap field value

/-- The value passes the checks of the field, and none of them can tell it from its plain form. -/
structure Field.Admits (events : Event → Prop) (heap : Heap) (field : Field) (value : Value) :
    Prop where
  passes : (field.firstFailure heap value).Gives events .pass
  blind : field.Blind events heap value

/-- Checks that pass and leave the trace alone admit the value. -/
theorem Field.Admits.of_yields {events : Event → Prop} {heap : Heap} {field : Field} {value : Value}
    (yields : ∀ trace, (field.firstFailure heap value).Yields trace .pass trace)
    (blind : field.Blind events heap value) : field.Admits events heap value :=
  ⟨Run.gives_of_yields yields, blind⟩

/-- The value is a record of a schema that is compiled with the built-in types, and each field holds
a value that it admits. As for every schema that is defined, no two fields have one name
(`World.Faithful.indexed`), and where the hook keeps records the schema's own sample is a record of
its fields' samples (`World.Compiles.sampled`). -/
structure World.RecordOf (events : Event → Prop) (world : World) (schema : Schema)
    (compiled : Compiled) (held : Field → Value) (value : Value) : Prop where
  known : schema.compiled = some compiled
  builtIn : ∀ field ∈ compiled.fields, field.CompiledBy Catalogue.builtIn world.heap
  names : (compiled.fields.map (·.name)).Nodup
  shape : world.heap.look value =
    .record schema.recordClass (compiled.fields.map fun field => (field.name, held field))
  admits : ∀ field ∈ compiled.fields, field.Admits events world.heap (held field)

/-- The value is what the sample is, though perhaps in other cells, and can be had back from its
plain form: scalars but null, mappings as documents hold them, empty collections, lists that repeat
one value, sets of scalars of one kind, and records of what the samples of their fields are. -/
inductive World.Recoverable (events : Event → Prop) (world : World) : Value → Value → Prop
  | scalar {value : Value} : value.isScalar = true → value ≠ .null →
      Recoverable events world value value
  | mapping {sample value : Value} {entries others : List (Value × Value)} :
      world.heap.look sample = .mapping entries → world.heap.look value = .mapping others →
      world.heap.Json value → Recoverable events world sample value
  | empty {sample value : Value} {kind : Gathering} :
      world.heap.gathering? sample = some (kind, []) →
      world.heap.gathering? value = some (kind, []) → Recoverable events world sample value
  | list {sample value representative : Value} {rest elements : List Value} :
      world.heap.look sample = .list (representative :: rest) →
      world.heap.look value = .list elements →
      (∀ element ∈ elements, Recoverable events world representative element) →
      Recoverable events world sample value
  | set {sample value representative : Value} {rest members : List Value} :
      world.heap.gathering? sample = some (.set, representative :: rest) →
      world.heap.gathering? value = some (.set, members) →
      representative.isScalar = true → world.heap.distinct [] members = .ok members →
      (∀ member ∈ members, member.isScalar = true ∧
        world.heap.shapeName representative = world.heap.shapeName member) →
      Recoverable events world sample value
  | record {sample value : Value} {recordClass : RecordClass} {fields : Named Value}
      {compiled : Compiled} {held : Field → Value} :
      world.heap.look sample = .record recordClass fields →
      world.RecordOf events (world.schema recordClass.number) compiled held value →
      (∀ field ∈ compiled.fields, Recoverable events world field.sample (held field)) →
      Recoverable events world sample value

theorem Primitive.parse_self (heap : Heap) (value : Value) : parse heap value value = value := by
  unfold parse
  split
  next whole other => cases whole.symm.trans other
  next => rfl

namespace Heap

variable {heap : Heap} {value plain other : Value} {entries : List (Value × Value)}

/-- A value has one plain form only. -/
theorem HasPlain.unique (made : heap.HasPlain value plain) (again : heap.HasPlain value other)
    (finite : heap.Finite value) : plain = other :=
  Except.ok.inj ((made.plain_eq finite).symm.trans (again.plain_eq finite))

theorem look_of_gathering {elements : List Value}
    (shape : heap.gathering? value = some (.array, elements)) :
    heap.look value = .list elements := by
  unfold gathering? at shape
  split at shape
  all_goals cases shape
  next held => exact held

theorem length_of_hashAll {hash : Value → Except Fault Nat} {values : List Value}
    {hashes : List Nat} (hashed : hashAll hash values = .ok hashes) :
    hashes.length = values.length := by
  induction values generalizing hashes with
  | nil =>
      cases hashed
      rfl
  | cons value rest ih =>
      simp only [hashAll] at hashed
      split at hashed
      next => cases hashed
      next =>
        split at hashed
        next => cases hashed
        next others later =>
          cases hashed
          simp [ih later]

/-- A mapping is looked for among the allowed values by equality. -/
theorem holds_of_mapping (shape : heap.look value = .mapping entries) (choices : List Value) :
    (Choices.ofList heap choices).holds heap value = heap.isAmong value choices := by
  unfold Choices.ofList
  split
  next hashes hashed =>
    have same : (hashes.zip choices).map (·.2) = choices :=
      List.map_snd_zip (Nat.le_of_eq (length_of_hashAll hashed).symm)
    simp only [Choices.holds, hash_of_mapping shape, shape, same]
  next => rfl

end Heap

section Checks

variable {events : Event → Prop} {world : World} {config : Configuration} {field : Field}
  {sample value plain again : Value}

theorem World.Recoverable.ne_null (recoverable : world.Recoverable events sample value) :
    value ≠ .null := by
  rintro rfl
  cases recoverable with
  | scalar _ present => exact present rfl
  | mapping _ shape _ | list _ shape _ => cases shape
  | empty _ shape | set _ shape _ _ _ => cases shape
  | record _ of _ => cases of.shape

theorem World.Recoverable.json {entries : List (Value × Value)}
    (recoverable : world.Recoverable events sample value)
    (shape : world.heap.look value = .mapping entries) : world.heap.Json value := by
  cases recoverable with
  | scalar single _ => exact .scalar single
  | mapping _ _ json => exact json
  | empty _ other | set _ other _ _ _ => simp [Heap.gathering?, shape] at other
  | list _ other _ => cases shape.symm.trans other
  | record _ of _ => cases shape.symm.trans of.shape

/-- What is no scalar has a size or is a record. -/
theorem World.Recoverable.cases_size (recoverable : world.Recoverable events sample value) :
    value.isScalar = true ∨ world.heap.hasSize sample = true ∨
      world.heap.isRecord sample = true ∧ world.heap.isRecord value = true := by
  cases recoverable with
  | scalar single _ => exact .inl single
  | mapping shape _ _ | list shape _ _ =>
      exact .inr (.inl (by simp [Heap.hasSize, Heap.length?, shape]))
  | empty shape _ | set shape _ _ _ _ => exact .inr (.inl (Heap.hasSize_of_gathering shape))
  | record shape of _ =>
      exact .inr (.inr ⟨by simp [Heap.isRecord, shape], by simp [Heap.isRecord, of.shape]⟩)

/-- The plain form of what a field admits is not exchanged for the fallback. -/
theorem Field.Admits.substitute (admits : field.Admits events world.heap value)
    (compiled : field.CompiledBy Catalogue.builtIn world.heap)
    (recoverable : world.Recoverable events field.sample value)
    (finite : world.heap.Finite value) (made : world.heap.HasPlain value plain) :
    Validation.substitute world.heap field.declaration plain = plain := by
  obtain ⟨_, passed, _⟩ := admits.passes []
  refine Validation.substitute_eq_self fun choices declared => ?_
  have held := Field.holds_of_pass compiled declared passed
  cases admits.blind with
  | scalar single =>
      rw [made.unique (.scalar single) finite]
      exact Heap.isAmong_of_holds single held
  | mapping shape _ =>
      have json := recoverable.json shape
      obtain ⟨other, rendered⟩ := json.rendered
      rw [made.unique rendered.made finite, rendered.isAmong_eq json,
        ← Heap.holds_of_mapping shape]
      exact held
  | bare unlimited _ _ => cases unlimited.symm.trans declared

/-- Whatever can tell a value that is no scalar from its plain form is told about a mapping. -/
theorem Field.Blind.cases_compound (blind : field.Blind events world.heap value)
    (compound : ¬ value.isScalar = true) (recoverable : world.Recoverable events sample value)
    (finite : world.heap.Finite value) (made : world.heap.HasPlain value plain) :
    (field.declaration.allowed = none ∧ field.declaration.regex = none ∧
        field.declaration.custom = none) ∨
      (∃ entries, world.heap.look value = .mapping entries) ∧ world.heap.Json value ∧
        world.heap.Rendered value plain ∧
        ∀ hook, field.declaration.custom = some hook →
          (hook.check world.heap plain).Gives events .pass := by
  cases blind with
  | scalar single => exact absurd single compound
  | mapping shape own =>
      have json := recoverable.json shape
      obtain ⟨other, rendered⟩ := json.rendered
      obtain rfl : plain = other := made.unique rendered.made finite
      exact .inr ⟨⟨_, shape⟩, json, rendered, fun hook declared =>
        own hook plain declared (made.plain_eq finite)⟩
  | bare unlimited unmatched none => exact .inl ⟨unlimited, unmatched, none⟩

/-- The plain form of what a field admits passes the checks of the field. -/
theorem Field.Admits.passes_plain (admits : field.Admits events world.heap value)
    (compiled : field.CompiledBy Catalogue.builtIn world.heap)
    (recoverable : world.Recoverable events field.sample value)
    (restores : Restores events world config field.type field.sample value value plain again) :
    (field.firstFailure world.heap plain).Gives events .pass := by
  by_cases single : value.isScalar = true
  · rw [restores.made.unique (.scalar single) restores.finite]
    exact admits.passes
  obtain ⟨_, passed, _⟩ := admits.passes []
  have kinds := recoverable.cases_size.resolve_left single
  have told := admits.blind.cases_compound single recoverable restores.finite restores.made
  refine firstFailureOf_of_all fun check member => ?_
  obtain ⟨first, last, applied⟩ := pass_of_firstFailureOf passed check member
  cases Check.asked_of_compile compiled.checked member with
  | bySize _ sized =>
      exact Run.gives_of_yields fun trace =>
        Field.size_passes_again trace sized restores.same applied
  | byValue _ unsized =>
      have unordered (side : Side) (limit : Value) (answer : Bool) :
          world.heap.order side value limit ≠ .ok answer := by
        rcases kinds with sized | ⟨_, record⟩
        · cases sized.symm.trans unsized
        · unfold Heap.isRecord at record
          split at record
          next shape => exact Heap.order_of_record shape
          next => cases record
      exact Run.gives_of_yields fun trace => Field.bound_passes_again trace compiled.typed
        (.inr unordered) recoverable.ne_null restores.present restores.same applied
  | allowed declared _ =>
      obtain ⟨unlimited, _, _⟩ | ⟨⟨_, shape⟩, json, rendered, _⟩ := told
      · cases unlimited.symm.trans declared
      · obtain ⟨others, mapping⟩ := rendered.mapping shape
        obtain ⟨held, _⟩ := Check.allowed_passes.mp applied
        refine Run.gives_of_yields fun _ => Check.allowed_passes.mpr ⟨?_, rfl⟩
        rwa [Heap.holds_of_mapping mapping, rendered.isAmong_eq json, ← Heap.holds_of_mapping shape]
  | matching declared _ =>
      obtain ⟨_, unmatched, _⟩ | ⟨⟨_, shape⟩, json, rendered, _⟩ := told
      · cases unmatched.symm.trans declared
      · obtain ⟨shown, _⟩ := Check.matching_passes.mp applied
        refine Run.gives_of_yields fun _ => Check.matching_passes.mpr ⟨?_, rfl⟩
        rwa [rendered.display_eq json shape]
  | noRegex _ _ _ => exact absurd applied Check.noRegex_passes
  | integer _ unsized plain =>
      rcases kinds with sized | ⟨record, _⟩
      · cases sized.symm.trans unsized
      · simp [Heap.isRecord_eq_false.mpr plain] at record
  | custom declared =>
      obtain ⟨_, _, none⟩ | ⟨_, _, _, own⟩ := told
      · cases none.symm.trans declared
      · exact own _ declared

end Checks

section Samples

variable {events : Event → Prop} {world : World} {config : Configuration} {field : Field}
  {schema : Schema} {compiled : Compiled} {held : Field → Value} {sample value plain again : Value}

/-- A field stores again what it admits if its type restores that. -/
theorem Field.Admits.restores (admits : field.Admits events world.heap value)
    (compiled : field.CompiledBy Catalogue.builtIn world.heap)
    (recoverable : world.Recoverable events field.sample value)
    (keys : config.keys.keyOf = KeyStrategy.identity.keyOf)
    (restores : Restores events world config field.type field.sample value value plain again) :
    FieldRestores events world config field value plain again where
  finite := restores.finite
  made := restores.made
  json := restores.json
  alike := restores.alike
  settles limit path _ within found :=
    guardField_stores keys restores.present found
      (admits.substitute compiled recoverable restores.finite restores.made) restores.fits
      (admits.passes_plain compiled recoverable restores) (restores.parses limit path within)

/-- A record is restored if what its fields hold is. -/
theorem World.RecordOf.restores (record : world.RecordOf events schema compiled held value)
    (recoverable : ∀ field ∈ compiled.fields, world.Recoverable events field.sample (held field))
    (keys : config.keys.keyOf = KeyStrategy.identity.keyOf)
    (finisher : config.finisher.finish = Finisher.identity.finish)
    (each : ∀ field ∈ compiled.fields, ∀ {type}, world.heap.Typed field.sample type →
      ∃ plain again, Restores events world config type field.sample (held field) (held field) plain
        again) :
    ∃ plain again, RecordRestores events world config schema value plain again := by
  have fields (some : List Field) (known : ∀ field ∈ some, field ∈ compiled.fields) :
      ∃ plains agains, FieldsRestore events world config some
        (some.map fun field => (field.name, held field)) plains agains := by
    induction some with
    | nil => exact ⟨[], [], .done⟩
    | cons field rest ih =>
        simp only [List.forall_mem_cons] at known
        obtain ⟨plains, agains, restore⟩ := ih known.2
        have compiledBy := record.builtIn field known.1
        obtain ⟨plain, again, restores⟩ := each field known.1 compiledBy.typed
        exact ⟨_, _, .stored ((record.admits field known.1).restores compiledBy
          (recoverable field known.1) keys restores) restore⟩
  obtain ⟨plains, agains, restore⟩ := fields compiled.fields fun _ member => member
  exact ⟨_, _, restore.record keys finisher record.known record.names record.shape⟩

theorem elements_restored {type : ValueType} {elements : List Value}
    (each : ∀ element ∈ elements, ∃ plain again,
      Restores events world config type sample element element plain again) :
    ∃ plains agains,
      ElementsRestore events world config type sample elements elements plains agains := by
  induction elements with
  | nil => exact ⟨[], [], .done⟩
  | cons element rest ih =>
      simp only [List.forall_mem_cons] at each
      obtain ⟨plain, again, restores⟩ := each.1
      obtain ⟨plains, agains, restore⟩ := ih each.2
      exact ⟨_, _, .next restores restore⟩

/-- Each value that can be had back from its plain form is had back by the type of the sample. -/
theorem World.Recoverable.restores (recoverable : world.Recoverable events sample value)
    (keys : config.keys.keyOf = KeyStrategy.identity.keyOf)
    (finisher : config.finisher.finish = Finisher.identity.finish) {type : ValueType}
    (typed : world.heap.Typed sample type) :
    ∃ plain again, Restores events world config type sample value value plain again := by
  induction recoverable generalizing type with
  | @scalar value single present =>
      have restores : Restores events world config type value value _ _ _ :=
        restores_scalar single present typed (.inl (.scalar single)) rfl
      rw [Primitive.parse_self] at restores
      exact ⟨_, _, restores⟩
  | @mapping sample value _ _ shape mapping json =>
      have same : world.heap.shapeName sample = world.heap.shapeName value := by
        rw [Heap.shapeName, Heap.shapeName, shape, mapping]
        rfl
      obtain ⟨plain, restores⟩ := restores_object shape typed (.inl json) same
      exact ⟨plain, plain, restores⟩
  | @empty sample value kind shape bare =>
      cases typed.unique (.unchecked shape)
      have none : kind.gather world.heap [] [] = .ok [] := rfl
      have alike : world.heap.Alike value (kind.wrap []) := by
        cases kind with
        | array => exact .list (Heap.look_of_gathering bare) rfl .nil
        | set => exact .set bare rfl .nil
      refine ⟨_, _, restores_gathered typed shape bare (Heap.accepts_of_gathering bare)
        (Heap.elements_of_gathering bare) none none rfl (by simp) .nil (by simp) alike ?_⟩
      intro limit path within
      obtain ⟨below, rfl⟩ := within.succ
      rw [Validation.OfCollection.unbound.parseTo_eq]
      exact parseCollection_unchecked shape none
  | @list sample value representative rest elements shape listed _ ih =>
      have gathered : world.heap.gathering? sample = some (.array, representative :: rest) := by
        simp [Heap.gathering?, shape]
      have same : world.heap.gathering? value = some (.array, elements) := by
        simp [Heap.gathering?, listed]
      obtain ⟨element, rfl, inner⟩ := typed.of_representative gathered
      obtain ⟨plains, agains, restore⟩ := elements_restored fun element member =>
        ih element member inner
      exact ⟨_, _, restores_list gathered inner listed (Heap.accepts_of_gathering same)
        (Heap.elements_of_gathering same) restore⟩
  | @set sample value representative rest members shape held single distinct each =>
      obtain ⟨element, rfl, inner⟩ := typed.of_representative shape
      have gathered : Gathering.set.gather world.heap [] members = .ok members := by
        rwa [Gathering.gather_set]
      exact ⟨_, _, restores_members shape single inner held (Heap.accepts_of_gathering held)
        (Heap.elements_of_gathering held) gathered rfl gathered
        (fun member known => (each member known).1) (fun member known => (each member known).2)⟩
  | record shape record fields ih =>
      cases typed.unique (.record shape)
      obtain ⟨plain, again, restores⟩ := record.restores fields keys finisher ih
      exact ⟨_, _, restores.nested shape⟩

/-- The sample of a schema survives the way through its plain form: under either policy, and however
the fields treat missing input, validating the plain form gives an equal record. Nothing is added to
the trace but what the checks add, so where they give no warning, none is given. -/
theorem World.validate_plain_sample {named : Option ConfigurationId}
    (sampled : world.RecordOf events schema compiled Field.sample compiled.sample)
    (recoverable : ∀ field ∈ compiled.fields,
      world.Recoverable events field.sample field.sample)
    (keys : (world.config (world.governing schema named)).keys.keyOf = KeyStrategy.identity.keyOf)
    (finisher : (world.config (world.governing schema named)).finisher.finish =
      Finisher.identity.finish) :
    ∃ plain again, world.heap.plain compiled.sample = .ok plain ∧
      (world.validate schema plain named).Gives events again ∧
      world.heap.equal compiled.sample again = true := by
  obtain ⟨plain, again, restores⟩ := sampled.restores recoverable keys finisher
    fun field member _ typed => (recoverable field member).restores keys finisher typed
  refine ⟨plain, again, restores.made.plain_eq restores.finite, ?_,
    restores.alike.equal restores.finite⟩
  have within : world.heap.Within (Validation.limit world plain + 1) plain :=
    restores.json.finite.bounded.mono (by simp only [Validation.limit, Heap.reach]; omega)
  exact (restores.validates _ "" within).bind
    (Run.gives_of_yields fun _ => Run.yields_pure.mpr ⟨rfl, rfl⟩)

end Samples

/-! A shelf: a name that is looked at, one book and one more twice, sizes, and a note for each. -/

namespace Shelves

def bookClass : RecordClass := ⟨1, "Book", [1, 0]⟩

def shelfClass : RecordClass := ⟨2, "Shelf", [2, 0]⟩

def two : Value := .float (.finite false 2 0)

def heap : Heap :=
  ⟨#[.record bookClass [("title", .text "x"), ("pages", .int 1)], .list [.ref 0, .ref 0],
    .frozenSet [.int 1, two], .list [.text "new", .null], .mapping [(.text "x", .ref 3)],
    .record shelfClass [("name", .text "x"), ("first", .ref 0), ("books", .ref 1),
      ("sizes", .ref 2), ("notes", .ref 4)]]⟩

/-- Passes whatever it looks at, and logs that it has. -/
def looking : CustomCheck := ⟨"look", fun _ _ => do
  Run.debug "looked"
  return .pass⟩

def bookDeclarations : List (String × Declaration) :=
  [("title", { sample := .text "x" }), ("pages", { sample := .int 1, minimum := some (.int 0) })]

def bookFields : List Field :=
  [⟨"title", { sample := .text "x" }, .text "x", .primitive .fallback, []⟩,
    ⟨"pages", { sample := .int 1, minimum := some (.int 0) }, .int 1, .primitive .fallback,
      [.byValue .below (.int 0) fun _ value => return value, .integer]⟩]

def bookSchema : Schema where
  recordClass := bookClass
  body := bookDeclarations
  declarations := bookDeclarations
  ancestry := [1, 0]
  config := none
  compiled := some (.of bookFields 0 (.ref 0))

def declarations : List (String × Declaration) :=
  [("name", { sample := .text "x", custom := some looking }),
    ("first", { sample := .ref 0, mode := .optional }),
    ("books", { sample := .ref 1, mode := .defaulted, maximum := some (.int 2) }),
    ("sizes", { sample := .ref 2 }),
    ("notes", { sample := .ref 4, minimum := some (.int 1) })]

def fields : List Field :=
  [⟨"name", { sample := .text "x", custom := some looking }, .text "x", .primitive .fallback,
      [.custom looking]⟩,
    ⟨"first", { sample := .ref 0, mode := .optional }, .ref 0, .record, []⟩,
    ⟨"books", { sample := .ref 1, mode := .defaulted, maximum := some (.int 2) }, .ref 1,
      .bound .array .record, [.bySize .above "length" (.int 2) Collection.array.size]⟩,
    ⟨"sizes", { sample := .ref 2 }, .ref 2, .bound .set (.primitive .fallback), []⟩,
    ⟨"notes", { sample := .ref 4, minimum := some (.int 1) }, .ref 4, .primitive .fallback,
      [.bySize .below "size" (.int 1) Measure.length]⟩]

def compiled : Compiled := .of fields 0 (.ref 5)

def schema : Schema where
  recordClass := shelfClass
  body := declarations
  declarations := declarations
  ancestry := [2, 0]
  config := none
  compiled := some compiled

def world : World where
  heap := heap
  schemas := #[.root, bookSchema, schema]
  configs := #[{ catalogue := 0 }]
  catalogues := #[Catalogue.builtIn]
  default := 0

def looked (event : Event) : Prop := event = .logged .debug "looked"

theorem recoverable_book : world.Recoverable looked (.ref 0) (.ref 0) := by
  have book : world.RecordOf looked (world.schema 1) (.of bookFields 0 (.ref 0)) Field.sample
      (.ref 0) := {
    known := rfl
    builtIn := by
      simp only [bookFields, List.forall_mem_cons, List.not_mem_nil, false_implies, implies_true,
        and_true]
      exact ⟨⟨[], [], rfl⟩, ⟨[], [], rfl⟩⟩
    names := by decide
    shape := rfl
    admits := by
      simp only [bookFields, List.forall_mem_cons, List.not_mem_nil, false_implies, implies_true,
        and_true]
      exact ⟨.of_yields (fun _ => rfl) (.scalar rfl), .of_yields (fun _ => rfl) (.scalar rfl)⟩ }
  refine .record rfl book ?_
  simp only [bookFields, List.forall_mem_cons, List.not_mem_nil, false_implies, implies_true,
    and_true]
  exact ⟨.scalar rfl (by simp), .scalar rfl (by simp)⟩

theorem json : world.heap.Json (.ref 4) := by
  have note : world.heap.Json (.ref 3) := by
    refine .list rfl ?_
    simp only [List.forall_mem_cons, List.not_mem_nil, false_implies, implies_true, and_true]
    exact ⟨.scalar rfl, .scalar rfl⟩
  have shape : world.heap.look (.ref 4) = .object [("x", .ref 3)] := rfl
  exact .object shape (by decide) (by simpa using note)

theorem sampled : world.RecordOf looked schema compiled Field.sample compiled.sample where
  known := rfl
  builtIn := by
    simp only [compiled, fields, List.forall_mem_cons, List.not_mem_nil, false_implies,
      implies_true, and_true]
    exact ⟨⟨[], [], rfl⟩, ⟨[], [], rfl⟩, ⟨[], [], rfl⟩, ⟨[], [], rfl⟩, ⟨[], [], rfl⟩⟩
  names := by decide
  shape := rfl
  admits := by
    simp only [compiled, fields, List.forall_mem_cons, List.not_mem_nil, false_implies,
      implies_true, and_true]
    refine ⟨⟨fun before => ⟨[.logged .debug "looked"], rfl, by simp [looked]⟩, .scalar rfl⟩, ?_⟩
    exact ⟨.of_yields (fun _ => rfl) (.bare rfl rfl rfl),
      .of_yields (fun _ => rfl) (.bare rfl rfl rfl), .of_yields (fun _ => rfl) (.bare rfl rfl rfl),
      .of_yields (fun _ => rfl) (.mapping rfl (by simp))⟩

theorem recoverable :
    ∀ field ∈ compiled.fields, world.Recoverable looked field.sample field.sample := by
  have books : world.heap.look (.ref 1) = .list [.ref 0, .ref 0] := rfl
  have sizes : world.heap.gathering? (.ref 2) = some (.set, [.int 1, two]) := rfl
  simp only [compiled, fields, List.forall_mem_cons, List.not_mem_nil, false_implies,
    implies_true, and_true]
  refine ⟨.scalar rfl (by simp), recoverable_book, .list books books ?_,
    .set sizes sizes rfl rfl ?_, .mapping rfl rfl json⟩
  · simpa using recoverable_book
  · simp only [List.forall_mem_cons, List.not_mem_nil, false_implies, implies_true, and_true]
    exact ⟨rfl, rfl, rfl⟩

end Shelves

/-- Books are given twice and one size is a float without a fraction; nothing is told but what the
name's own check logs. -/
theorem World.validate_plain_sample_shelves :
    ∃ plain again, Shelves.world.heap.plain (.ref 5) = .ok plain ∧
      (Shelves.world.validate Shelves.schema plain none).Gives Shelves.looked again ∧
      Shelves.world.heap.equal (.ref 5) again = true :=
  World.validate_plain_sample Shelves.sampled Shelves.recoverable rfl rfl

end Exemplar
