import Exemplar.Proofs.BuiltIn

/-!
What a successful run promises about its record. Conformance is told from samples alone, without
types and checks: collections element by element, records field by field, all else by the name of
its shape. It holds of every record that validation builds from input without records, however the
samples lead round in circles.
-/

namespace Exemplar

namespace Heap

/-- The second value can be reached inside the first. -/
inductive Holds (heap : Heap) : Value → Value → Prop
  | self {value} : Holds heap value value
  | inside {value part inner} : part ∈ (heap.look value).parts → Holds heap part inner →
      Holds heap value inner

/-- No record can be reached inside the value. -/
def RecordFree (heap : Heap) (value : Value) : Prop :=
  ∀ inner, heap.Holds value inner → heap.isRecord inner = false

variable {heap : Heap} {value part : Value} {key : String} {entries : List (Value × Value)}

theorem RecordFree.self (free : heap.RecordFree value) : heap.isRecord value = false :=
  free value .self

theorem RecordFree.inside (free : heap.RecordFree value) (within : part ∈ (heap.look value).parts) :
    heap.RecordFree part :=
  fun inner held => free inner (.inside within held)

theorem recordFree_of_no_parts (bare : (heap.look value).parts = [])
    (plain : heap.isRecord value = false) : heap.RecordFree value := by
  intro inner held
  cases held with
  | self => exact plain
  | inside within _ => simp [bare] at within

theorem mem_interleave_of_named (found : named? key entries = some value) :
    value ∈ Value.interleave entries := by
  induction entries with
  | nil => simp [named?] at found
  | cons entry rest ih =>
      obtain ⟨name, held⟩ := entry
      unfold named? at found
      split at found
      next => cases found
      next same =>
        cases same
        split at found
        next => simp_all [Value.interleave]
        next => simp [Value.interleave, ih found]
      next same =>
        cases same
        simp [Value.interleave, ih found]

theorem mem_parts_of_iterate {kind : Gathering} {elements : List Value}
    (accepted : kind.collection.accepts (heap.look value) = true)
    (listed : heap.iterate value = .ok elements) (member : part ∈ elements) :
    part ∈ (heap.look value).parts := by
  cases kind <;> cases shape : heap.look value <;>
    simp_all [iterate, elements?, Value.parts, Gathering.collection, Collection.array,
      Collection.set, Collection.isSequence, Collection.isAnySet]

end Heap

theorem Validation.mem_interleave_of_entryUnder {key : String} {entries : List (Value × Value)}
    (present : Validation.entryUnder key entries ≠ .null) :
    Validation.entryUnder key entries ∈ Value.interleave entries := by
  unfold Validation.entryUnder at present ⊢
  cases held : Heap.named? key entries with
  | none => simp [held] at present
  | some entry => exact Heap.mem_interleave_of_named held

mutual

/-- The value is what a document can hold: scalars, lists and mappings from texts, all in place. -/
def Value.isDocument : Value → Bool
  | .null | .bool _ | .int _ | .float _ | .text _ => true
  | .list elements => areDocuments elements
  | .mapping entries => haveDocuments entries
  | _ => false

def Value.areDocuments : List Value → Bool
  | [] => true
  | value :: rest => value.isDocument && areDocuments rest

def Value.haveDocuments : List (Value × Value) → Bool
  | [] => true
  | (.text _, value) :: rest => value.isDocument && haveDocuments rest
  | _ => false

end

namespace Value

variable {value part : Value} {elements : List Value} {entries : List (Value × Value)}

theorem isDocument_of_mem (documents : areDocuments elements = true) (member : part ∈ elements) :
    part.isDocument = true := by
  induction elements with
  | nil => cases member
  | cons first rest ih =>
      simp only [areDocuments, Bool.and_eq_true] at documents
      rcases List.mem_cons.mp member with rfl | later
      · exact documents.1
      · exact ih documents.2 later

theorem areDocuments_interleave (documents : haveDocuments entries = true) :
    areDocuments (interleave entries) = true := by
  induction entries with
  | nil => rfl
  | cons entry rest ih =>
      obtain ⟨key, held⟩ := entry
      cases key <;> simp_all [haveDocuments, interleave, areDocuments, isDocument]

theorem isDocument_of_part (document : value.isDocument = true) (member : part ∈ value.parts) :
    part.isDocument = true := by
  cases value with
  | list elements =>
      have all : areDocuments elements = true := by simpa [isDocument] using document
      exact isDocument_of_mem all member
  | mapping entries =>
      have all : haveDocuments entries = true := by simpa [isDocument] using document
      exact isDocument_of_mem (areDocuments_interleave all) member
  | _ => simp_all [parts, isDocument]

end Value

theorem Heap.look_of_isDocument {heap : Heap} {value : Value} (document : value.isDocument = true) :
    heap.look value = value := by
  cases value <;> first | rfl | cases document

theorem Heap.recordFree_of_isDocument {heap : Heap} {value : Value}
    (document : value.isDocument = true) : heap.RecordFree value := by
  intro inner held
  induction held with
  | @self value => cases value <;> first | rfl | cases document
  | inside within _ ih =>
      rw [look_of_isDocument document] at within
      exact ih (Value.isDocument_of_part document within)

mutual

/-- The value is what a sample asks for. -/
inductive Conforms (world : World) : Value → Value → Prop
  | record {sample value recordClass fields stored compiled} :
      world.heap.look sample = .record recordClass fields →
      (world.schema recordClass.number).compiled = some compiled →
      world.heap.look value = .record recordClass stored →
      FieldsConform world compiled.fields stored →
      Conforms world sample value
  | elements {sample value kind samples members} :
      world.heap.gathering? sample = some (kind, samples) →
      world.heap.look value = kind.wrap members →
      (∀ representative, samples.head? = some representative →
        ∀ member, member ∈ members → Conforms world representative member) →
      Conforms world sample value
  | plain {sample value} : world.heap.gathering? sample = none →
      world.heap.isRecord sample = false →
      world.heap.shapeName value = world.heap.shapeName sample →
      (∀ whole number, world.heap.look sample = .int whole →
        world.heap.look value = .float number → number.toInt? = none) →
      Conforms world sample value

/-- What is stored is what the fields ask for, in their order, with nothing left out but optional
fields. A record that is its own field's default is stored as it stands. -/
inductive FieldsConform (world : World) : List Field → List (String × Value) → Prop
  | done : FieldsConform world [] []
  | omitted {field rest stored} : field.declaration.mode = .optional →
      FieldsConform world rest stored → FieldsConform world (field :: rest) stored
  | stored {field rest value stored} : Conforms world field.sample value →
      FieldsConform world rest stored →
      FieldsConform world (field :: rest) ((field.name, value) :: stored)
  | standIn {field rest stored} : field.declaration.mode = .defaulted →
      world.heap.isRecord field.sample = true → FieldsConform world rest stored →
      FieldsConform world (field :: rest) ((field.name, field.sample) :: stored)

end

/-- The value is a record of the schema whose fields are what the schema's fields ask for. -/
def ConformsTo (world : World) (schema : Schema) (value : Value) : Prop :=
  ∃ compiled stored, schema.compiled = some compiled ∧
    world.heap.look value = .record schema.recordClass stored ∧
    FieldsConform world compiled.fields stored

variable {world : World} {config : Configuration} {root : Schema} {before after : Trace}

theorem conforms_of_primitive {sample value : Value}
    (collection : world.heap.gathering? sample = none)
    (record : world.heap.isRecord sample = false)
    (fits : world.heap.shapeName sample = world.heap.shapeName value) :
    Conforms world sample (Primitive.parse world.heap sample value) := by
  unfold Primitive.parse
  split
  next whole number shape given =>
    split
    next integral found =>
      refine .plain collection record ?_ ?_
      · rw [fits]
        simp only [Heap.shapeName, given]
        rfl
      · intro _ other _ float
        cases float
    next broken =>
      refine .plain collection record fits.symm ?_
      intro _ other _ float
      cases given.symm.trans float
      exact broken
  next apart =>
    exact .plain collection record fits.symm fun whole number shape given =>
      (apart whole number shape given).elim

section Parsing

variable {parse : Parse}

def IsPlain (world : World) (sample : Value) : Prop :=
  world.heap.gathering? sample = none ∧ world.heap.isRecord sample = false

/-- Parsing what fits a sample gives what conforms to it. -/
def ParseConforms (world : World) (root : Schema) (parse : Parse) : Prop :=
  ∀ {type path sample value fitting fitted before parsed after},
    world.heap.Typed sample type → Covered world root sample →
    world.heap.RecordFree value ∨ IsPlain world sample →
    (type.fit world.heap value sample).Yields fitting .toParse fitted →
    (parse type path sample value).Yields before (.ok parsed) after →
    Conforms world sample parsed

theorem members_conform {kind : Gathering} {element : ValueType} {sample : Value} {path : String}
    {index dropped : Nat} {gathered values : List Value} {result : Value}
    (sound : ParseConforms world root parse) (typed : world.heap.Typed sample element)
    (covered : Covered world root sample)
    (passes : Validation.Passes parse world.heap config kind.collection element sample path index
      (kind.wrap gathered) values before (.ok result) dropped after)
    (free : ∀ value ∈ values, world.heap.RecordFree value)
    (sofar : ∀ member ∈ gathered, Conforms world sample member) :
    ∃ members, result = kind.wrap members ∧ ∀ member ∈ members, Conforms world sample member := by
  induction values generalizing index gathered before dropped with
  | nil =>
      cases passes
      exact ⟨gathered, rfl, sofar⟩
  | cons value rest ih =>
      have restFree := fun other member => free other (List.mem_cons_of_mem value member)
      cases passes with
      | settled fit _ _ =>
          have plain := (free value (by simp)).self
          simp [(record_of_settled typed fit).2] at plain
      | parsed fit parsed inserted passes =>
          obtain ⟨grown, added, rfl, rfl⟩ := Gathering.insert_yields.mp inserted
          have fresh := sound typed covered (.inl (free value (by simp))) fit parsed
          refine ih passes restFree ?_
          intro member present
          rcases Gathering.mem_of_add added present with old | rfl
          · exact sofar member old
          · exact fresh
      | skipped _ _ _ _ passes => exact ih passes restFree sofar

theorem recordFree_of_iterate {kind : Gathering} {value : Value} {values : List Value}
    (accepted : kind.collection.accepts (world.heap.look value) = true)
    (listed : world.heap.iterate value = .ok values) (free : world.heap.RecordFree value) :
    ∀ member ∈ values, world.heap.RecordFree member := by
  intro member present
  exact free.inside (Heap.mem_parts_of_iterate accepted listed present)

/-- A value that is offered holds no record unless it is the default of the field. -/
theorem recordFree_of_sought {field : Field} {path : String} {entries : List (Value × Value)}
    {given : Value} (input : ∀ inner ∈ Value.interleave entries, world.heap.RecordFree inner)
    (fallback : ∀ value, field.declaration.fallback = some value → world.heap.RecordFree value)
    (sought : Validation.Sought world config field path entries before (.inr given) after) :
    world.heap.RecordFree (Validation.substitute world.heap field.declaration given) ∨
      field.declaration.mode = .defaulted ∧
        ∃ middle, (field.type.standIn world.heap field.sample).Yields middle
          (Validation.substitute world.heap field.declaration given) after := by
  rcases Validation.substitute_cases world.heap field.declaration given with same | replaced
  · rw [same]
    cases sought with
    | standIn _ _ defaulted stood => exact .inr ⟨defaulted, _, stood⟩
    | given _ present =>
        exact .inl (input _ (Validation.mem_interleave_of_entryUnder present))
  · exact .inl (fallback _ replaced)

theorem stored_conforms {field : Field} {path : String} {entries : List (Value × Value)}
    {value : Value} (sound : ParseConforms world root parse)
    (compiled : field.CompiledBy Catalogue.builtIn world.heap)
    (covered : Covered world root field.sample)
    (input : ∀ inner ∈ Value.interleave entries, world.heap.RecordFree inner)
    (fallback : ∀ value, field.declaration.fallback = some value → world.heap.RecordFree value)
    (settles : Validation.Settles parse world config field path entries before (.stored value)
      after) :
    Conforms world field.sample value ∨
      field.declaration.mode = .defaulted ∧ world.heap.isRecord field.sample = true ∧
        value = field.sample := by
  have typed := compiled.typed
  cases settles with
  | unsought sought => cases sought
  | settled admitted =>
      obtain ⟨sought, fit, _⟩ := admitted
      obtain ⟨type, record⟩ := record_of_settled typed fit
      rcases recordFree_of_sought input fallback sought with free | ⟨defaulted, _, stood⟩
      · simp [free.self] at record
      · simp only [type, ValueType.standIn, Run.yields_pure] at stood
        rw [stood.1] at record ⊢
        exact .inr ⟨defaulted, record, rfl⟩
  | parsed admitted parsed =>
      obtain ⟨sought, fit, _⟩ := admitted
      refine .inl (sound typed covered ?_ fit parsed)
      rcases recordFree_of_sought input fallback sought with free | ⟨_, _, stood⟩
      · exact .inl free
      · generalize field.type = type at typed fit stood
        cases typed with
        | plain collection record => exact .inr ⟨collection, record⟩
        | unchecked _ | elements _ _ =>
            obtain ⟨empty, rfl⟩ := Gathering.empty_yields.mp stood
            rw [empty]
            exact .inl (Heap.recordFree_of_no_parts (by simp) (by simp))
        | record shape =>
            obtain ⟨same, rfl⟩ := Run.yields_pure.mp stood
            obtain ⟨entries, mapping⟩ := mapping_of_toParse (.record shape) shape fit
            rw [same, shape] at mapping
            cases mapping

theorem fields_conform {location : String} {entries : List (Value × Value)} {fields : List Field}
    {stored : List (String × Value)} (sound : ParseConforms world root parse)
    (compiled : ∀ field ∈ fields, field.CompiledBy Catalogue.builtIn world.heap)
    (covered : ∀ field ∈ fields, Covered world root field.sample)
    (input : ∀ inner ∈ Value.interleave entries, world.heap.RecordFree inner)
    (fallback : ∀ field ∈ fields, ∀ value, field.declaration.fallback = some value →
      world.heap.RecordFree value)
    (fills : Validation.Fills parse world config location entries fields before (.ok stored)
      after) :
    FieldsConform world fields stored := by
  induction fields generalizing before stored with
  | nil =>
      cases fills
      exact .done
  | cons field rest ih =>
      simp only [List.forall_mem_cons] at compiled covered fallback
      rcases fills.cons_ok with ⟨_, guarded, later⟩ | ⟨value, _, _, guarded, later, rfl⟩
      · have settles := Validation.settles_of_guardField guarded (by simp)
        exact .omitted settles.optional (ih compiled.2 covered.2 fallback.2 later)
      · have settles := Validation.settles_of_guardField guarded (by simp)
        have others := ih compiled.2 covered.2 fallback.2 later
        rcases stored_conforms sound compiled.1 covered.1 input fallback.1 settles with
          conforms | ⟨defaulted, record, rfl⟩
        · exact .stored conforms others
        · exact .standIn defaulted record others

theorem record_conforms {schema : Schema} {location : String} {data value : Value}
    (builtIn : world.BuiltIn root) (used : world.Uses root schema)
    (sound : ParseConforms world root parse)
    (fallback : ∀ {schema compiled field value}, world.Uses root schema →
      schema.compiled = some compiled → field ∈ compiled.fields →
      field.declaration.fallback = some value → world.heap.RecordFree value)
    (identity : config.finisher.finish = Finisher.identity.finish)
    (free : world.heap.RecordFree data)
    (ran : (Validation.validateWith parse world config schema location data).Yields before
      (.ok value) after) :
    ConformsTo world schema value := by
  cases Validation.validates_of_validateWith ran with
  | settled shape _ =>
      have plain := free.self
      simp [Heap.isRecord, shape] at plain
  | @built compiled entries fields middle _ _ known shape fills finished =>
      rw [identity] at finished
      obtain ⟨rfl, rfl⟩ := Run.yields_pure.mp finished
      refine ⟨compiled, fields, known, rfl, ?_⟩
      refine fields_conform sound (fun _ => builtIn.fields used known)
        (fun _ => builtIn.covered used known) ?_ (fun _ member _ => fallback used known member)
        fills
      intro inner within
      exact free.inside (shape ▸ within)

end Parsing

theorem parseConforms_parseTo (builtIn : world.BuiltIn root)
    (fallback : ∀ {schema compiled field value}, world.Uses root schema →
      schema.compiled = some compiled → field ∈ compiled.fields →
      field.declaration.fallback = some value → world.heap.RecordFree value)
    (identity : config.finisher.finish = Finisher.identity.finish) (limit : Nat) :
    ParseConforms world root (Validation.parseTo world config limit) := by
  -- Samples can lead back to their own schema; only the depth gets smaller on the way in.
  induction limit using Nat.strongRecOn with
  | ind limit ih =>
      intro type path sample value fitting fitted before parsed after typed covered free fit ran
      obtain ⟨dropped, parses⟩ := parses_of_parseTo typed ran
      generalize finished : (Except.ok parsed : Outcome) = outcome at parses
      cases parses with
      | plain collection record =>
          cases finished
          exact conforms_of_primitive collection record
            (shapeName_of_toParse typed collection record fit)
      | @record below recordClass _ _ _ shape nested =>
          cases finished
          obtain ⟨used, class_⟩ := covered recordClass (.record shape)
          have plain : world.heap.RecordFree value := by
            rcases free with free | ⟨_, record⟩
            · exact free
            · simp [Heap.isRecord, shape] at record
          obtain ⟨compiled, stored, known, look, fields⟩ :=
            record_conforms builtIn used (ih below (by omega)) fallback identity plain nested
          exact .record shape known (class_ ▸ look) fields
      | unchecked shape _ _ =>
          cases finished
          exact .elements shape Gathering.look_wrap (by simp)
      | @passed below _ _ _ _ _ _ _ _ shape element listed passes =>
          cases finished
          have plain : world.heap.RecordFree value := by
            rcases free with free | ⟨collection, _⟩
            · exact free
            · simp [shape] at collection
          obtain ⟨members, rfl, conform⟩ := members_conform (ih below (by omega)) element
            (covered.representative shape) passes
            (recordFree_of_iterate (accepted_of_toParse typed shape fit) listed plain) (by simp)
          exact .elements shape Gathering.look_wrap (by simpa using conform)

/-- A run on input without records that succeeds gives a record that conforms to its schema. -/
theorem validateAt_conforms {schema : Schema} {location : String} {data value : Value}
    (builtIn : world.BuiltIn schema)
    (fallback : ∀ {used compiled field value}, world.Uses schema used →
      used.compiled = some compiled → field ∈ compiled.fields →
      field.declaration.fallback = some value → world.heap.RecordFree value)
    (identity : config.finisher.finish = Finisher.identity.finish)
    (free : world.heap.RecordFree data)
    (ran : (world.validateAt config schema location data).Yields before (.ok value) after) :
    ConformsTo world schema value :=
  record_conforms builtIn .root (parseConforms_parseTo builtIn fallback identity _) fallback
    identity free ran

/-- A node whose next node is in the input and whose home is the sample. -/
theorem validateAt_conforms_nodes :
    ∃ value after, (Nodes.world.validateAt (Nodes.world.config 0) Nodes.schema "" Nodes.pair).Yields
      [] (.ok value) after ∧ ConformsTo Nodes.world Nodes.schema value := by
  have ran : ∃ value after, (Nodes.world.validateAt (Nodes.world.config 0) Nodes.schema ""
      Nodes.pair).Yields [] (.ok value) after := ⟨_, _, rfl⟩
  obtain ⟨value, after, ran⟩ := ran
  refine ⟨value, after, ran, validateAt_conforms Nodes.builtIn ?_ rfl
    (Heap.recordFree_of_isDocument (by decide)) ran⟩
  intro used compiled field fallback reached known member given
  have bare := Nodes.of_fields Nodes.without_fallback reached known member
  cases bare.symm.trans given

end Exemplar
