import Exemplar.Proofs.Determinacy
import Exemplar.Proofs.Policy

/-!
The records that a run builds, in the order in which they are handed to the hook that finishes them.
A record is built for every mapping that is taken in as an object, and for nothing else: what is a
record already stays as it is. The records that are built for the fields and the elements inside come
before the one they are for, fields in the order of their declarations and elements in the order of
the input.
-/

namespace Exemplar

def Event.finished? : Event → Option Value
  | .finished record => some record
  | _ => none

namespace Run

variable {α : Type} {action : Run α} {before middle after : Trace} {value : α}
  {records others : List Value}

/-- From the one trace to the other these records have been finished, in this order. -/
def Finished (before after : Trace) (records : List Value) : Prop :=
  ∃ events, after = before ++ events ∧ events.filterMap Event.finished? = records

/-- From every trace the computation adds events none of which finishes a record. -/
def unfinishing : Law := adding fun event => event.finished? = none

theorem Finished.refl : Finished before before [] := ⟨[], by simp, rfl⟩

theorem Finished.trans (first : Finished before middle records)
    (second : Finished middle after others) : Finished before after (records ++ others) := by
  obtain ⟨early, rfl, rfl⟩ := first
  obtain ⟨late, rfl, rfl⟩ := second
  exact ⟨early ++ late, List.append_assoc .., List.filterMap_append⟩

theorem finished_of_unfinishing (quiet : unfinishing.Holds action)
    (yielded : action.Yields before value after) : Finished before after [] := by
  obtain ⟨result, events, ran, each⟩ := quiet before
  have same : (result, before ++ events) = (.ok value, after) := ran.symm.trans yielded
  cases same
  exact ⟨events, rfl, List.filterMap_eq_nil_iff.mpr each⟩

end Run

/-- A record that was built, with what was built for its fields. -/
inductive Built where
  | record (recordClass : RecordClass) (fields : List (String × Value)) (inside : List Built)

mutual

/-- The records of a tree, each after those that are inside of it. -/
def Built.postorder : Built → List Value
  | .record recordClass fields inside => postorderAll inside ++ [.record recordClass fields]

def Built.postorderAll : List Built → List Value
  | [] => []
  | tree :: rest => tree.postorder ++ postorderAll rest

end

theorem Built.postorderAll_append {trees others : List Built} :
    postorderAll (trees ++ others) = postorderAll trees ++ postorderAll others := by
  induction trees with
  | nil => rfl
  | cons tree rest ih => simp [postorderAll, ih]

mutual

/-- What is gone through are records in full, and no objects that were there before. -/
theorem Built.record_of_mem_postorder {record : Value} :
    ∀ {tree : Built}, record ∈ tree.postorder →
      ∃ recordClass fields, record = .record recordClass fields
  | .record recordClass fields _, member => by
      rcases List.mem_append.mp member with inside | last
      · exact record_of_mem_postorderAll inside
      · exact ⟨recordClass, fields, List.mem_singleton.mp last⟩

theorem Built.record_of_mem_postorderAll {record : Value} :
    ∀ {trees : List Built}, record ∈ postorderAll trees →
      ∃ recordClass fields, record = .record recordClass fields
  | _ :: _, member => by
      rcases List.mem_append.mp member with first | later
      · exact record_of_mem_postorder first
      · exact record_of_mem_postorderAll later

end

namespace Validation

mutual

/-- Parsing a value, to a depth, yields a result and builds the records of these trees. -/
inductive BuildsValue (world : World) (config : Configuration) : Nat → ValueType → String → Value →
    Value → Trace → Value → List Built → Trace → Prop
  | primitive {limit plain path sample value before} :
      BuildsValue world config limit (.primitive plain) path sample value before
        (Primitive.parse world.heap sample value) [] before
  | bigInteger {limit path sample value before result} :
      BigInteger.parse world.heap path value = .ok (.ok result) →
      BuildsValue world config limit .bigInteger path sample value before result [] before
  | custom {limit own path sample value before result after} :
      (own.parse config world.heap path sample value).Yields before (.ok result) after →
      BuildsValue world config limit (.custom own) path sample value before result [] after
  | object {limit path sample value before recordClass fields result forest after} :
      world.heap.look sample = .record recordClass fields →
      BuildsObject world config ⟨limit, world.schema recordClass.number, path, value, before⟩
        result forest after →
      BuildsValue world config (limit + 1) .record path sample value before result forest after
  | held {limit path sample value before} :
      (∀ recordClass fields, world.heap.look sample ≠ .record recordClass fields) →
      BuildsValue world config (limit + 1) .record path sample value before value [] before
  | bare {limit type collection element path sample value before empty made looked items result
      after} : OfCollection type collection element →
      collection.empty.Yields before empty made →
      (collection.first world.heap sample).Yields made none looked →
      world.heap.iterate value = .ok items →
      (insertAll world.heap collection empty items).Yields looked (.ok result) after →
      BuildsValue world config (limit + 1) type path sample value before result [] after
  | elements {limit type collection element path sample value before empty made representative
      looked inner bound items result forest after} : OfCollection type collection element →
      collection.empty.Yields before empty made →
      (collection.first world.heap sample).Yields made (some representative) looked →
      (elementType world config element representative).Yields looked inner bound →
      world.heap.iterate value = .ok items →
      BuildsElements world config limit collection inner representative path 0 empty items bound
        result forest after →
      BuildsValue world config (limit + 1) type path sample value before result forest after

/-- The elements from a position on are added to what is gathered so far. -/
inductive BuildsElements (world : World) (config : Configuration) : Nat → Collection → ValueType →
    Value → String → Nat → Value → List Value → Trace → Value → List Built → Trace → Prop
  | done {limit collection element sample path index gathered before} :
      BuildsElements world config limit collection element sample path index gathered [] before
        gathered [] before
  | settled {limit collection element sample path index gathered item rest before fitted next added
      result forest after} :
      (element.fit world.heap item sample).Yields before .settled fitted →
      (collection.insert world.heap gathered item).Yields fitted next added →
      BuildsElements world config limit collection element sample path (index + 1) next rest added
        result forest after →
      BuildsElements world config limit collection element sample path index gathered (item :: rest)
        before result forest after
  | parsed {limit collection element sample path index gathered item rest before fitted parsed here
      read next added result later after} :
      (element.fit world.heap item sample).Yields before .toParse fitted →
      BuildsValue world config limit element (elementPath path index) sample item fitted parsed here
        read →
      (collection.insert world.heap gathered parsed).Yields read next added →
      BuildsElements world config limit collection element sample path (index + 1) next rest added
        result later after →
      BuildsElements world config limit collection element sample path index gathered (item :: rest)
        before result (here ++ later) after

/-- The fields in turn, with what is stored for them. -/
inductive BuildsFields (world : World) (config : Configuration) : Nat → String →
    List (Value × Value) → List Field → Trace → List (String × Value) → List Built → Trace → Prop
  | done {limit location entries before} :
      BuildsFields world config limit location entries [] before [] [] before
  | omitted {limit location entries field rest before middle stored forest after} :
      Sought world config field (fieldPath location field.name) entries before (.inl .omitted)
        middle →
      BuildsFields world config limit location entries rest middle stored forest after →
      BuildsFields world config limit location entries (field :: rest) before stored forest after
  | settled {limit location entries field rest before value middle stored forest after} :
      Admitted world config field (fieldPath location field.name) entries before value .settled
        middle →
      BuildsFields world config limit location entries rest middle stored forest after →
      BuildsFields world config limit location entries (field :: rest) before
        ((field.name, value) :: stored) forest after
  | parsed {limit location entries field rest before value middle parsed here read stored later
      after} :
      Admitted world config field (fieldPath location field.name) entries before value .toParse
        middle →
      BuildsValue world config limit field.type (fieldPath location field.name) field.sample value
        middle parsed here read →
      BuildsFields world config limit location entries rest read stored later after →
      BuildsFields world config limit location entries (field :: rest) before
        ((field.name, parsed) :: stored) (here ++ later) after

/-- What is a record of the schema stays as it is; of a mapping a record is built, and finished. -/
inductive BuildsObject (world : World) (config : Configuration) :
    Call → Value → List Built → Trace → Prop
  | settled {call : Call} {recordClass fields} :
      world.heap.look call.data = .record recordClass fields →
      recordClass.extends call.schema.recordClass = true →
      BuildsObject world config call call.data [] call.before
  | built {call : Call} {compiled entries stored inside middle} :
      call.schema.compiled = some compiled → world.heap.look call.data = .mapping entries →
      BuildsFields world config call.limit call.location entries compiled.fields call.before stored
        inside middle →
      BuildsObject world config call (.record call.schema.recordClass stored)
        [.record call.schema.recordClass stored inside]
        (middle ++ [.finished (.record call.schema.recordClass stored)])

end

end Validation

/-- The same configuration with the policy that leaves nothing out. -/
def Configuration.strict (config : Configuration) : Configuration := { config with lenient := false }

/-- The hook that finishes records leaves them as they are and records each of its calls, every
report to the sink is a warning, and the keys are made without either. -/
structure Configuration.Tells (config : Configuration) : Prop where
  finisher : ∀ heap record before,
    (config.finisher.finish heap record).Yields before record (before ++ [.finished record])
  sink : ∀ text before, (config.sink.report text).WarnsFrom before
  keys : ∀ name, (config.keys.keyOf name).Silent ∧ Run.unfinishing.Holds (config.keys.keyOf name)

theorem Configuration.Tells.reports {config : Configuration} (tells : config.Tells) :
    config.strict.Reports where
  keys name := (tells.keys name).1
  finisher heap record before :=
    ⟨.ok record, [.finished record], tells.finisher heap record before, by simp [Event.isWarning]⟩
  sink := tells.sink

namespace Validation

open Run (Finished unfinishing)

variable {world : World} {config : Configuration} {limit : Nat} {field : Field} {path : String}
  {entries : List (Value × Value)} {before after : Trace}

theorem Sought.of_strict {result : FieldOutcome ⊕ Value}
    (sought : Sought world config.strict field path entries before result after) :
    Sought world config field path entries before result after := by
  cases sought with
  | omitted named absent mode => exact .omitted named absent mode
  | missing named absent mode => exact .missing named absent mode
  | standIn named absent mode stood => exact .standIn named absent mode stood
  | given named present => exact .given named present

theorem Admitted.of_strict {value : Value} {fit : Fit}
    (admitted : Admitted world config.strict field path entries before value fit after) :
    Admitted world config field path entries before value fit after := by
  obtain ⟨sought, compared, passed⟩ := admitted
  exact ⟨sought.of_strict, compared, passed⟩

theorem Sought.finished {result : FieldOutcome ⊕ Value} (tells : config.Tells)
    (obeys : field.Obeys unfinishing)
    (sought : Sought world config field path entries before result after) :
    Finished before after [] :=
  Run.finished_of_unfinishing (obeys_inputOf (fun name => (tells.keys name).2) obeys)
    (inputOf_of_sought sought)

theorem Admitted.finished {value : Value} {fit : Fit} (tells : config.Tells)
    (obeys : field.Obeys unfinishing)
    (admitted : Admitted world config field path entries before value fit after) :
    Finished before after [] := by
  obtain ⟨sought, compared, passed⟩ := admitted
  exact ((sought.finished tells obeys).trans
    (Run.finished_of_unfinishing obeys.type.fit compared)).trans
      (Run.finished_of_unfinishing obeys.firstFailure passed)

/-- Whatever is parsed builds the records that are finished on the way, under the strict policy. -/
def ParseBuilds (world : World) (config : Configuration) (limit : Nat) : Prop :=
  ∀ {type path sample value before result after}, type.Obeys unfinishing →
    type.AlikeBy config.strict config →
    (parseTo world config.strict limit type path sample value).Yields before (.ok result) after →
    ∃ forest, BuildsValue world config limit type path sample value before result forest after ∧
      Finished before after (Built.postorderAll forest)

theorem builds_of_passes {collection : Collection} {element : ValueType} {sample : Value}
    {index dropped : Nat} {gathered result : Value} {items : List Value}
    (parses : ParseBuilds world config limit) (kind : collection.Obeys unfinishing)
    (obeys : element.Obeys unfinishing) (alike : element.AlikeBy config.strict config)
    (passes : Passes (parseTo world config.strict limit) world.heap config.strict collection element
      sample path index gathered items before (.ok result) dropped after) :
    ∃ forest, BuildsElements world config limit collection element sample path index gathered items
        before result forest after ∧ Finished before after (Built.postorderAll forest) := by
  generalize ended : (Except.ok result : Outcome) = outcome at passes
  induction passes with
  | done =>
      cases ended
      exact ⟨[], .done, .refl⟩
  | refused _ | failed _ _ _ => cases ended
  | skipped _ _ lenient => cases lenient
  | settled compared inserted _ ih =>
      obtain ⟨forest, builds, finished⟩ := ih ended
      exact ⟨forest, .settled compared inserted builds,
        ((Run.finished_of_unfinishing obeys.fit compared).trans
          (Run.finished_of_unfinishing (kind.insert _ _ _) inserted)).trans finished⟩
  | parsed compared parsed inserted _ ih =>
      obtain ⟨here, inside, first⟩ := parses obeys alike parsed
      obtain ⟨later, builds, second⟩ := ih ended
      refine ⟨here ++ later, .parsed compared inside inserted builds, ?_⟩
      rw [Built.postorderAll_append]
      have read := (Run.finished_of_unfinishing obeys.fit compared).trans first
      have added := read.trans (Run.finished_of_unfinishing (kind.insert _ _ _) inserted)
      rw [List.append_nil] at added
      exact added.trans second

theorem builds_of_collects {type : ValueType} {collection : Collection}
    {element : Option ValueType} {sample value result : Value} {dropped : Nat}
    (lawful : world.Obeys unfinishing) (alike : world.AlikeBy config.strict config)
    (parses : ParseBuilds world config limit) (gathers : OfCollection type collection element)
    (obeys : type.Obeys unfinishing) (same : type.AlikeBy config.strict config)
    (collects : Collects (parseTo world config.strict limit) world config.strict collection element
      path sample value before (.ok result) dropped after) :
    ∃ forest, BuildsValue world config (limit + 1) type path sample value before result forest
        after ∧ Finished before after (Built.postorderAll forest) := by
  have kind := obeys.own gathers
  have own : ∀ inner ∈ element, inner.Obeys unfinishing := by
    cases gathers with
    | unbound => simp
    | bound =>
        cases obeys with
        | bound _ inner => simpa using inner
  generalize ended : (Except.ok result : Outcome) = outcome at collects
  cases collects with
  | unchecked emptied found listed inserted =>
      subst ended
      refine ⟨[], .bare gathers emptied found listed inserted, ?_⟩
      exact ((Run.finished_of_unfinishing kind.empty emptied).trans
        (Run.finished_of_unfinishing (kind.first _ _) found)).trans
          (Run.finished_of_unfinishing (obeys_insertAll kind) inserted)
  | @passed _ _ _ _ inner _ _ _ _ _ emptied found resolved listed passes =>
      subst ended
      have resolved : (elementType world config element _).Yields _ inner _ := resolved
      have inside := obeys_of_elementType lawful own resolved
      have uniform := alikeBy_of_elementType alike (same.inside gathers) resolved
      obtain ⟨forest, builds, finished⟩ := builds_of_passes parses kind inside uniform passes
      refine ⟨forest, .elements gathers emptied found resolved listed builds, ?_⟩
      exact (((Run.finished_of_unfinishing kind.empty emptied).trans
        (Run.finished_of_unfinishing (kind.first _ _) found)).trans
          (Run.finished_of_unfinishing (obeys_elementType lawful) resolved)).trans finished

theorem builds_of_fills {location : String} {fields : List Field} {stored : List (String × Value)}
    (tells : config.Tells) (parses : ParseBuilds world config limit)
    (obey : ∀ field ∈ fields, field.Obeys unfinishing)
    (alike : ∀ field ∈ fields, field.type.AlikeBy config.strict config)
    (fills : Fills (parseTo world config.strict limit) world config.strict location entries fields
      before (.ok stored) after) :
    ∃ forest, BuildsFields world config limit location entries fields before stored forest after ∧
      Finished before after (Built.postorderAll forest) := by
  induction fields generalizing before stored with
  | nil =>
      cases fills
      exact ⟨[], .done, .refl⟩
  | cons field rest ih =>
      rw [List.forall_mem_cons] at obey alike
      rcases fills.cons_ok with ⟨middle, guarded, later⟩ | ⟨value, others, middle, guarded, later, rfl⟩
      · obtain ⟨forest, builds, finished⟩ := ih obey.2 alike.2 later
        cases settles_of_guardField guarded (by simp) with
        | unsought sought =>
            have sought := sought.of_strict
            exact ⟨forest, .omitted sought builds, (sought.finished tells obey.1).trans finished⟩
        | skipped _ _ pardoned _ => cases pardoned.1
      · obtain ⟨forest, builds, finished⟩ := ih obey.2 alike.2 later
        cases settles_of_guardField guarded (by simp) with
        | unsought sought => cases sought
        | settled admitted =>
            have admitted := admitted.of_strict
            exact ⟨forest, .settled admitted builds,
              (admitted.finished tells obey.1).trans finished⟩
        | parsed admitted parsed =>
            have admitted := admitted.of_strict
            obtain ⟨here, inside, first⟩ := parses obey.1.type alike.1 parsed
            refine ⟨here ++ forest, .parsed admitted inside builds, ?_⟩
            rw [Built.postorderAll_append]
            exact ((admitted.finished tells obey.1).trans first).trans finished

theorem builds_of_validateWith {schema : Schema} {location : String} {data value : Value}
    (tells : config.Tells) (parses : ParseBuilds world config limit)
    (obey : ∀ compiled, schema.compiled = some compiled →
      ∀ field ∈ compiled.fields, field.Obeys unfinishing)
    (alike : ∀ compiled, schema.compiled = some compiled →
      ∀ field ∈ compiled.fields, field.type.AlikeBy config.strict config)
    (ran : (validateWith (parseTo world config.strict limit) world config.strict schema location
      data).Yields before (.ok value) after) :
    ∃ forest, BuildsObject world config ⟨limit, schema, location, data, before⟩ value forest after ∧
      Finished before after (Built.postorderAll forest) := by
  cases validates_of_validateWith ran with
  | settled shape below => exact ⟨[], .settled shape below, .refl⟩
  | @built compiled entries stored middle _ _ known mapping fills finished =>
      obtain ⟨inside, builds, first⟩ :=
        builds_of_fills tells parses (obey compiled known) (alike compiled known) fills
      obtain ⟨rfl, rfl⟩ := finished.unique (tells.finisher _ _ middle)
      refine ⟨_, .built known mapping builds, ?_⟩
      have last : Finished middle (middle ++ [.finished (.record schema.recordClass stored)])
          [.record schema.recordClass stored] := ⟨_, rfl, rfl⟩
      simpa [Built.postorderAll, Built.postorder] using first.trans last

theorem builds_of_parseObject {sample value result : Value} (lawful : world.Obeys unfinishing)
    (alike : world.AlikeBy config.strict config) (tells : config.Tells)
    (parses : ParseBuilds world config limit)
    (ran : (parseObject (parseTo world config.strict limit) world config.strict path sample
      value).Yields before (.ok result) after) :
    ∃ forest, BuildsValue world config (limit + 1) .record path sample value before result forest
        after ∧ Finished before after (Built.postorderAll forest) := by
  by_cases record : ∃ recordClass fields, world.heap.look sample = .record recordClass fields
  · obtain ⟨recordClass, fields, shape⟩ := record
    rw [parseObject_of_record shape] at ran
    obtain ⟨forest, builds, finished⟩ :=
      builds_of_validateWith tells parses (fun _ known _ => lawful.fields known)
        (fun _ known _ => alike.fields known) ran
    exact ⟨forest, .object shape builds, finished⟩
  · have other : ∀ recordClass fields, world.heap.look sample ≠ .record recordClass fields :=
      fun recordClass fields shape => record ⟨recordClass, fields, shape⟩
    rw [parseObject_of_no_record other] at ran
    split at ran
    next =>
      obtain ⟨same, rfl⟩ := Run.yields_pure.mp ran
      cases same
      exact ⟨[], .held other, .refl⟩
    next => simp at ran

/-- Values without fields or elements inside build nothing, to whatever depth. -/
theorem builds_of_plain {type : ValueType} {sample value result : Value} (plain : ¬ Nests type)
    (obeys : type.Obeys unfinishing) (alike : type.AlikeBy config.strict config)
    (ran : (parseTo world config.strict limit type path sample value).Yields before (.ok result)
      after) :
    ∃ forest, BuildsValue world config limit type path sample value before result forest after ∧
      Finished before after (Built.postorderAll forest) := by
  cases type with
  | primitive own =>
      rw [parseTo_primitive] at ran
      obtain ⟨same, rfl⟩ := Run.yields_pure.mp ran
      cases same
      exact ⟨[], .primitive, .refl⟩
  | bigInteger =>
      have read : (liftM (BigInteger.parse world.heap path value) : Run Outcome).Yields before
          (.ok result) after := by
        cases limit <;> exact ran
      obtain ⟨parsed, rfl⟩ := Run.yields_lift.mp read
      exact ⟨[], .bigInteger parsed, .refl⟩
  | custom own =>
      have parsed : (own.parse config world.heap path sample value).Yields before (.ok result)
          after := by
        have same : own.parse config.strict = own.parse config := alike
        rw [← same]
        cases limit <;> exact ran
      cases obeys with
      | custom quiet =>
          exact ⟨[], .custom parsed, Run.finished_of_unfinishing (quiet.parse _ _ _ _ _) parsed⟩
  | record | unbound _ | bound _ _ => exact absurd trivial plain

theorem parseBuilds_parseTo (lawful : world.Obeys unfinishing)
    (alike : world.AlikeBy config.strict config) (tells : config.Tells) (limit : Nat) :
    ParseBuilds world config limit := by
  induction limit with
  | zero =>
      intro type path sample value before result after obeys same ran
      by_cases nests : Nests type
      · cases type <;> first | exact nests.elim | simp [parseTo] at ran
      · exact builds_of_plain nests obeys same ran
  | succ limit ih =>
      intro type path sample value before result after obeys same ran
      cases type with
      | primitive _ | bigInteger | custom _ => exact builds_of_plain id obeys same ran
      | record => exact builds_of_parseObject lawful alike tells ih ran
      | unbound collection =>
          obtain ⟨_, dropped, enough, collects⟩ := parseTo_unbound ran
          cases enough
          exact builds_of_collects lawful alike ih .unbound obeys same collects
      | bound collection element =>
          obtain ⟨_, dropped, enough, collects⟩ := parseTo_bound ran
          cases enough
          exact builds_of_collects lawful alike ih .bound obeys same collects

/-- Without a warning the policy has had no say. -/
theorem yields_strict {id : SchemaId} {location : String} {data value : Value}
    (quiet : world.Silent) (alike : world.AlikeBy config.strict config) (tells : config.Tells)
    (ran : (world.validateAt config (world.schema id) location data).Yields before (.ok value) after)
    (unwarned : Run.WithoutWarning before after) :
    (world.validateAt config.strict (world.schema id) location data).Yields before (.ok value)
      after := by
  cases policy : config.lenient with
  | false =>
      have same : config.strict = config := by
        rw [Configuration.strict, ← policy]
      rwa [same]
  | true =>
      have differ : world.DifferInPolicy config.strict config := ⟨rfl, policy, rfl, rfl, rfl, rfl⟩
      have parses := softens_parseTo quiet alike differ tells.reports (Validation.limit world data)
      refine ((softens_validateWith quiet alike differ tells.reports parses).yields_iff ?_).mpr
        ⟨ran, unwarned⟩
      rintro ⟨_, failed⟩
      cases failed

end Validation

end Exemplar
