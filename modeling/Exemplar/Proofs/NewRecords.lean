import Exemplar.Proofs.Finishing
import Exemplar.Proofs.Sizes
import Exemplar.Proofs.StandIns

/-!
The records that are new in what a run comes to. A record that was there before is an object of the
heap, and what refers to it shows so; a record that was built stands in the value in full. As long
as nothing that goes into a run holds a record in full, the records that stand in its result in full
are those that it has built, and going through the result from the inside out meets them in the
order in which they were finished.
-/

namespace Exemplar

mutual

/-- The records that stand in the value in full, each after those that are inside of it. -/
def Value.newRecords : Value → List Value
  | .list elements => newRecordsOfAll elements
  | .tuple elements => newRecordsOfAll elements
  | .set elements => newRecordsOfAll elements
  | .frozenSet elements => newRecordsOfAll elements
  | .deque elements => newRecordsOfAll elements
  | .mapping entries => newRecordsOfEntries entries
  | .record recordClass fields => newRecordsOfFields fields ++ [.record recordClass fields]
  | _ => []

def Value.newRecordsOfAll : List Value → List Value
  | [] => []
  | value :: rest => value.newRecords ++ newRecordsOfAll rest

def Value.newRecordsOfEntries : List (Value × Value) → List Value
  | [] => []
  | (key, value) :: rest => key.newRecords ++ value.newRecords ++ newRecordsOfEntries rest

def Value.newRecordsOfFields : List (String × Value) → List Value
  | [] => []
  | (_, value) :: rest => value.newRecords ++ newRecordsOfFields rest

end

namespace Value

variable {value : Value} {elements : List Value} {entries : List (Value × Value)}
  {fields : List (String × Value)}

theorem newRecordsOfAll_eq : newRecordsOfAll elements = elements.flatMap newRecords := by
  induction elements with
  | nil => rfl
  | cons first rest ih => simp [newRecordsOfAll, ih]

theorem newRecordsOfEntries_eq :
    newRecordsOfEntries entries = (interleave entries).flatMap newRecords := by
  induction entries with
  | nil => rfl
  | cons entry rest ih => simp [newRecordsOfEntries, interleave, ih]

theorem newRecordsOfFields_eq :
    newRecordsOfFields fields = fields.flatMap fun field => field.2.newRecords := by
  induction fields with
  | nil => rfl
  | cons field rest ih => simp [newRecordsOfFields, ih]

@[simp] theorem newRecords_wrap {kind : Gathering} :
    (kind.wrap elements).newRecords = elements.flatMap newRecords := by
  cases kind <;> exact newRecordsOfAll_eq

theorem newRecords_record {recordClass : RecordClass} :
    (record recordClass fields).newRecords =
      (fields.flatMap fun field => field.2.newRecords) ++ [.record recordClass fields] := by
  rw [newRecords, newRecordsOfFields_eq]

/-- Where the value is no record in full, its new records are those of its parts. -/
theorem newRecords_eq_parts (other : ∀ recordClass fields, value ≠ .record recordClass fields) :
    value.newRecords = value.parts.flatMap newRecords := by
  cases value with
  | list | tuple | set | frozenSet | deque => exact newRecordsOfAll_eq
  | mapping => exact newRecordsOfEntries_eq
  | record recordClass fields => exact absurd rfl (other recordClass fields)
  | _ => rfl

end Value

namespace Heap

variable {heap : Heap} {value part sample : Value}

/-- Every record that is met in the value is an object: none stands there in full. -/
def Referential (heap : Heap) (value : Value) : Prop :=
  ∀ inner, heap.Holds value inner → ∀ recordClass fields, inner ≠ .record recordClass fields

theorem Referential.inside (refers : heap.Referential value)
    (member : part ∈ (heap.look value).parts) : heap.Referential part :=
  fun inner held => refers inner (.inside member held)

theorem referential_of_bare (other : ∀ recordClass fields, value ≠ .record recordClass fields)
    (bare : (heap.look value).parts = []) : heap.Referential value := by
  intro inner held
  cases held with
  | self => exact other
  | inside member _ => simp [bare] at member

theorem RecordFree.referential (free : heap.RecordFree value) : heap.Referential value := by
  rintro _ held recordClass fields rfl
  simpa [isRecord, look] using free _ held

theorem Referential.copied (refers : heap.Referential value) :
    heap.Referential value.copied := by
  intro inner held
  obtain ⟨original, inside, rfl | rfl⟩ := holds_copied held
  · exact refers inner inside
  · have other := refers original inside
    intro recordClass fields same
    cases original with
    | record lower values => exact other lower values rfl
    | _ => cases same

/-- What is stored stands nowhere in full. -/
theorem referential_of_stored (flat : heap.Flat) (stored : value.Stored) :
    heap.Referential value := by
  intro inner held
  induction held with
  | self =>
      rintro recordClass fields rfl
      exact stored
  | inside member _ ih =>
      rcases eq_ref_or_bare stored with ⟨index, rfl⟩ | bare
      · exact ih (flat index _ member)
      · simp [bare heap] at member

/-- A value that holds records only as objects has no new ones. -/
theorem Referential.newRecords (refers : heap.Referential value) : value.newRecords = [] := by
  induction deep : value.depth using Nat.strongRecOn generalizing value with
  | ind depth ih =>
      rw [Value.newRecords_eq_parts (refers value .self), List.flatMap_eq_nil_iff]
      intro part member
      have inside : heap.Referential part := by
        refine refers.inside ?_
        cases value with
        | ref | copy => cases member
        | _ => exact member
      exact ih part.depth (deep ▸ Value.depth_lt_of_part member) inside rfl

theorem newRecords_of_referential {values : List Value}
    (each : ∀ value ∈ values, heap.Referential value) : values.flatMap Value.newRecords = [] :=
  List.flatMap_eq_nil_iff.mpr fun value member => (each value member).newRecords

theorem StandsIn.referential (stands : heap.StandsIn sample value)
    (refers : heap.Referential sample) : heap.Referential value := by
  cases stands with
  | itself => exact refers
  | copied => exact refers.copied
  | @empty kind _ _ => exact referential_of_bare (by cases kind <;> simp [Gathering.wrap]) (by simp)

end Heap

namespace Gathering

variable {heap : Heap} {kind : Gathering} {elements grown : List Value} {value : Value}

/-- What is added brings its new records along; what is left out of a set has none. -/
theorem newRecords_of_add (added : kind.add heap elements value = .ok grown) :
    grown.flatMap Value.newRecords = elements.flatMap Value.newRecords ++ value.newRecords := by
  cases kind with
  | array =>
      cases added
      simp
  | set =>
      obtain ⟨⟨hash, hashed⟩, rfl⟩ := Heap.addMember_ok added
      have none : value.newRecords = [] := (Heap.recordFree_of_hashTo hashed).referential.newRecords
      split <;> simp [none]

end Gathering

/-- The sample of the field and its fallback hold records only as objects. -/
structure Field.Referential (heap : Heap) (field : Field) : Prop where
  sample : heap.Referential field.sample
  fallback : ∀ fallback, field.declaration.fallback = some fallback → heap.Referential fallback

/-- So do those of all the fields that a schema uses. -/
def World.Referential (world : World) (root : Schema) : Prop :=
  ∀ {schema compiled field}, world.Uses root schema → schema.compiled = some compiled →
    field ∈ compiled.fields → field.Referential world.heap

namespace Validation

open Built (postorderAll)

variable {world : World} {root : Schema} {config : Configuration} {limit : Nat} {path : String}
  {sample value result : Value} {forest : List Built} {entries : List (Value × Value)}
  {before after : Trace}

/-- What is built for a value of a built-in type are the new records of what comes of it. -/
def BuildsNew (world : World) (root : Schema) (config : Configuration) (limit : Nat) : Prop :=
  ∀ {type path sample value fitting fitted before result forest after},
    world.heap.Typed sample type → Covered world root sample → world.heap.Referential value →
    (type.fit world.heap value sample).Yields fitting .toParse fitted →
    BuildsValue world config limit type path sample value before result forest after →
    postorderAll forest = result.newRecords

theorem newRecords_of_elements {kind : Gathering} {element : ValueType} {index : Nat}
    {gathered items : List Value} (news : BuildsNew world root config limit)
    (typed : world.heap.Typed sample element) (covered : Covered world root sample)
    (refer : ∀ item ∈ items, world.heap.Referential item)
    (builds : BuildsElements world config limit kind.collection element sample path index
      (kind.wrap gathered) items before result forest after) :
    result.newRecords = gathered.flatMap Value.newRecords ++ postorderAll forest := by
  induction items generalizing index gathered before forest with
  | nil =>
      cases builds
      simp [postorderAll]
  | cons item rest ih =>
      rw [List.forall_mem_cons] at refer
      cases builds with
      | settled fit inserted later =>
          obtain ⟨grown, added, rfl, rfl⟩ := Gathering.insert_yields.mp inserted
          rw [ih refer.2 later, Gathering.newRecords_of_add added, refer.1.newRecords,
            List.append_nil]
      | parsed fit parsed inserted later =>
          obtain ⟨grown, added, rfl, rfl⟩ := Gathering.insert_yields.mp inserted
          rw [ih refer.2 later, Gathering.newRecords_of_add added,
            ← news typed covered refer.1 fit parsed, Built.postorderAll_append, List.append_assoc]

section Fields

variable {field : Field}

theorem referential_of_admitted {fit : Fit} (typed : world.heap.Typed field.sample field.type)
    (refers : field.Referential world.heap)
    (input : ∀ inner ∈ Value.interleave entries, world.heap.Referential inner)
    (admitted : Admitted world config field path entries before value fit after) :
    world.heap.Referential value := by
  obtain ⟨sought, _, _⟩ := admitted
  rcases substitute_cases world.heap field.declaration _ with same | replaced
  · rw [same]
    cases sought with
    | standIn _ _ _ stood => exact (typed.standsIn stood).referential refers.sample
    | given _ present => exact input _ (mem_interleave_of_entryUnder present)
  · exact refers.fallback _ replaced

theorem newRecords_of_fields {location : String} {fields : List Field}
    {stored : List (String × Value)} (news : BuildsNew world root config limit)
    (typed : ∀ field ∈ fields, world.heap.Typed field.sample field.type)
    (covered : ∀ field ∈ fields, Covered world root field.sample)
    (refer : ∀ field ∈ fields, field.Referential world.heap)
    (input : ∀ inner ∈ Value.interleave entries, world.heap.Referential inner)
    (builds : BuildsFields world config limit location entries fields before stored forest after) :
    postorderAll forest = stored.flatMap fun field => field.2.newRecords := by
  induction fields generalizing before stored forest with
  | nil =>
      cases builds
      rfl
  | cons field rest ih =>
      rw [List.forall_mem_cons] at typed covered refer
      cases builds with
      | omitted _ later => exact ih typed.2 covered.2 refer.2 later
      | settled admitted later =>
          have offered := referential_of_admitted typed.1 refer.1 input admitted
          rw [List.flatMap_cons, offered.newRecords, List.nil_append]
          exact ih typed.2 covered.2 refer.2 later
      | parsed admitted parsed later =>
          have offered := referential_of_admitted typed.1 refer.1 input admitted
          obtain ⟨_, fit, _⟩ := admitted
          rw [List.flatMap_cons, Built.postorderAll_append, news typed.1 covered.1 offered fit parsed,
            ih typed.2 covered.2 refer.2 later]

end Fields

theorem newRecords_of_object {schema : Schema} {location : String} {data : Value}
    (builtIn : world.BuiltIn root) (refers : world.Referential root)
    (news : BuildsNew world root config limit) (used : world.Uses root schema)
    (offered : world.heap.Referential data)
    (builds : BuildsObject world config ⟨limit, schema, location, data, before⟩ result forest
      after) :
    postorderAll forest = result.newRecords := by
  cases builds with
  | settled => exact offered.newRecords.symm
  | built known mapping fields =>
      have inside := newRecords_of_fields news
        (fun _ member => (builtIn.fields used known member).typed)
        (fun _ member => builtIn.covered used known member)
        (fun _ member => refers used known member)
        (fun _ member => offered.inside (mapping ▸ member)) fields
      rw [Value.newRecords_record, ← inside]
      simp [postorderAll, Built.postorder]

theorem newRecords_of_primitive (offered : world.heap.Referential value) :
    (Primitive.parse world.heap sample value).newRecords = [] := by
  unfold Primitive.parse
  split
  · split
    · rfl
    · exact offered.newRecords
  · exact offered.newRecords

/-- The elements of what fits a collection hold records only as objects, as it does. -/
theorem referential_of_iterate {type : ValueType} {kind : Gathering} {samples items : List Value}
    (typed : world.heap.Typed sample type)
    (shape : world.heap.gathering? sample = some (kind, samples))
    (fit : (type.fit world.heap value sample).Yields before .toParse after)
    (offered : world.heap.Referential value) (listed : world.heap.iterate value = .ok items) :
    ∀ item ∈ items, world.heap.Referential item :=
  fun _ member =>
    offered.inside (Heap.mem_parts_of_iterate (accepted_of_toParse typed shape fit) listed member)

theorem buildsNew (builtIn : world.BuiltIn root) (refers : world.Referential root) (limit : Nat) :
    BuildsNew world root config limit := by
  induction limit with
  | zero =>
      intro type path sample value fitting fitted before result forest after typed _ offered _ builds
      cases builds with
      | primitive => exact (newRecords_of_primitive offered).symm
      | bigInteger _ | custom _ => cases typed
  | succ limit ih =>
      intro type path sample value fitting fitted before result forest after typed covered offered
        fit builds
      cases builds with
      | primitive => exact (newRecords_of_primitive offered).symm
      | bigInteger _ | custom _ => cases typed
      | object shape builds =>
          exact newRecords_of_object builtIn refers ih (covered _ (.record shape)).1 offered builds
      | held other =>
          cases typed with
          | record shape => exact absurd shape (other _ _)
      | bare gathers emptied first listed inserted =>
          cases typed with
          | record | plain => cases gathers
          | elements shape inner =>
              cases gathers
              simp [Heap.first_yields shape] at first
          | unchecked shape =>
              have refer := referential_of_iterate (.unchecked shape) shape fit offered listed
              cases gathers
              obtain ⟨rfl, _⟩ := Gathering.empty_yields.mp emptied
              obtain ⟨grown, gathered, same, _⟩ := Gathering.gather_of_insertAll inserted
              cases same
              have all : ∀ element ∈ grown, world.heap.Referential element := by
                intro element member
                rcases Gathering.mem_of_gather gathered member with none | item
                · cases none
                · exact refer element item
              rw [Value.newRecords_wrap, Heap.newRecords_of_referential all, Built.postorderAll]
      | elements gathers emptied first resolved listed builds =>
          cases typed with
          | record | plain => cases gathers
          | unchecked shape =>
              cases gathers
              simp [Heap.first_yields shape] at first
          | elements shape inner =>
              have refer := referential_of_iterate (.elements shape inner) shape fit offered listed
              cases gathers
              obtain ⟨rfl, _⟩ := Gathering.empty_yields.mp emptied
              obtain ⟨same, _⟩ := (Heap.first_yields shape).mp first
              cases same
              obtain ⟨rfl, _⟩ := Run.yields_pure.mp resolved
              rw [newRecords_of_elements ih inner (covered.representative shape) refer builds]
              simp

/-- Of an object nothing is built, of a mapping the record that comes last. -/
theorem BuildsObject.built_last {schema : Schema} {location : String} {data : Value}
    (builds : BuildsObject world config ⟨limit, schema, location, data, before⟩ result forest
      after) :
    (world.heap.isRecord data = true → result = data ∧ forest = [] ∧ after = before) ∧
      (world.heap.isRecord data = false → ∃ fields inside,
        result = .record schema.recordClass fields ∧
          forest = [.record schema.recordClass fields inside]) := by
  cases builds with
  | settled shape _ => exact ⟨fun _ => ⟨rfl, rfl, rfl⟩, by simp [Heap.isRecord, shape]⟩
  | built _ mapping _ => exact ⟨by simp [Heap.isRecord, mapping], fun _ => ⟨_, _, rfl, rfl⟩⟩

end Validation

open Validation Built in
/-- The hook that finishes records is called once for each record that is built, for those inside of
it first, fields in the order of their declarations and elements in that of the input, and for no
record that was there before. With the built-in types these are the records that stand in the result
in full, gone through from the inside out. The application's own types and checks are taken to call
neither this hook nor the one for warnings, and the types not to depend on the policy. -/
theorem World.validateAt_finishes_in_postorder {world : World} {config : Configuration}
    {id : SchemaId} {location : String} {data value : Value} {before after : Trace}
    (quiet : world.Silent) (lawful : world.Obeys Run.unfinishing)
    (alike : world.AlikeBy config.strict config) (tells : config.Tells)
    (ran : (world.validateAt config (world.schema id) location data).Yields before (.ok value) after)
    (unwarned : Run.WithoutWarning before after) :
    ∃ forest, BuildsObject world config
        ⟨limit world data, world.schema id, location, data, before⟩ value forest after ∧
      Run.Finished before after (postorderAll forest) ∧
      (∀ record ∈ postorderAll forest, ∃ recordClass fields, record = .record recordClass fields) ∧
      (world.heap.isRecord data = true → value = data ∧ forest = [] ∧ after = before) ∧
      (world.heap.isRecord data = false → ∃ fields inside,
        value = .record (world.schema id).recordClass fields ∧
          forest = [.record (world.schema id).recordClass fields inside]) ∧
      (world.BuiltIn (world.schema id) → world.Referential (world.schema id) →
        world.heap.Referential data → postorderAll forest = value.newRecords) := by
  have strict := yields_strict quiet alike tells ran unwarned
  obtain ⟨forest, builds, finished⟩ := builds_of_validateWith tells
    (parseBuilds_parseTo lawful alike tells _) (fun _ known _ => lawful.fields known)
    (fun _ known _ => alike.fields known) strict
  obtain ⟨settled, built⟩ := builds.built_last
  exact ⟨forest, builds, finished, fun _ => record_of_mem_postorderAll, settled, built,
    fun builtIn refers offered =>
      newRecords_of_object builtIn refers (buildsNew builtIn refers _) .root offered builds⟩

namespace Nodes

theorem refers : world.Referential schema := by
  have flat : world.heap.Flat :=
    Heap.flat_of_cells (by simp [world, heap, Value.parts, Value.Stored])
  have each : ∀ field ∈ fields, field.Referential world.heap := by
    have stored : ∀ field ∈ fields, field.sample.Stored := by simp [fields, Value.Stored]
    intro field member
    refine ⟨Heap.referential_of_stored flat (stored field member), fun fallback declared => ?_⟩
    simp [without_fallback field member] at declared
  intro _ _ _ reached known member
  exact of_fields each reached known member

theorem tells (lenient : Bool) : (telling lenient).Tells where
  finisher heap record before := rfl
  sink text before := ⟨.ok (), [.warned text], rfl, .warned text, by simp, rfl⟩
  keys _ := ⟨Run.silent_pure, Run.unfinishing.pure⟩

/-- What comes of the second node of two. -/
def second : Value :=
  .record nodeClass [("value", .text "c"), ("tags", .list [.text "d"]), ("home", .ref 0)]

def both : Value :=
  .record nodeClass
    [("value", .text "a"), ("tags", .list [.text "b"]), ("next", second), ("home", .ref 0)]

end Nodes

open Validation Built in
/-- Of two nodes the one that comes second is finished first, and the node that both return to by
default is not finished at all. -/
theorem World.validateAt_finishes_pair :
    Run.WithoutWarning [] [.finished Nodes.second, .finished Nodes.both] ∧
      ∃ forest, BuildsObject Nodes.world (Nodes.telling true)
        ⟨limit Nodes.world Nodes.pair, Nodes.world.schema 1, "", Nodes.pair, []⟩ Nodes.both forest
          [.finished Nodes.second, .finished Nodes.both] ∧
      postorderAll forest = [Nodes.second, Nodes.both] := by
  have quiet : Nodes.world.Silent := ⟨Nodes.silent.types, Nodes.silent.fields⟩
  have alike {one other : Configuration} : Nodes.world.AlikeBy one other :=
    ⟨Nodes.alikeBy.types, Nodes.alikeBy.fields⟩
  have ran : (Nodes.world.validateAt (Nodes.telling true) (Nodes.world.schema 1) ""
      Nodes.pair).Yields [] (.ok Nodes.both) [.finished Nodes.second, .finished Nodes.both] := rfl
  have unwarned : Run.WithoutWarning [] [.finished Nodes.second, .finished Nodes.both] :=
    ⟨_, rfl, by simp [Event.isWarning]⟩
  have offered : Nodes.world.heap.Referential Nodes.pair :=
    (Heap.recordFree_of_isDocument rfl).referential
  obtain ⟨forest, builds, _, _, _, _, new⟩ :=
    validateAt_finishes_in_postorder quiet Nodes.lawful alike (Nodes.tells true) ran unwarned
  exact ⟨unwarned, forest, builds, new Nodes.builtIn Nodes.refers offered⟩

end Exemplar
