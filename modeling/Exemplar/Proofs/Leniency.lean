import Exemplar.Proofs.Containment
import Exemplar.Proofs.Location
import Exemplar.Proofs.Rejections

/-!
Which failures a lenient configuration still gives. Failing elements and failing optional objects
are left out, so a run fails at a field that only records lead to, none of them optional, or at an
element of such a field whose shape does not fit. What fails inside an element or inside an optional
object never gets that far.
-/

namespace Exemplar

/-- All types are collections, or the types of records, of plain values and of big integers. -/
def Catalogue.Standard (catalogue : Catalogue) : Prop := ∀ custom, .custom custom ∉ catalogue

/-- Every field of every schema was compiled with a standard catalogue. -/
def World.Standard (world : World) : Prop :=
  ∀ {id compiled field}, (world.schema id).compiled = some compiled → field ∈ compiled.fields →
    ∃ catalogue heap, Catalogue.Standard catalogue ∧ field.CompiledBy catalogue heap

theorem Field.CompiledBy.not_custom {catalogue : Catalogue} {heap : Heap} {field : Field}
    {custom : Custom} (compiled : field.CompiledBy catalogue heap)
    (standard : catalogue.Standard) : field.type ≠ .custom custom := by
  obtain ⟨before, after, ran⟩ := compiled
  simp only [Field.compile, Run.yields_bind, Run.yields_lift, Run.yields_pure] at ran
  obtain ⟨type, _, typed, checks, _, _, made, _⟩ := ran
  have same : field.type = type := congrArg Field.type made
  rw [same]
  simp only [Catalogue.typeFor, Run.yields_bind] at typed
  obtain ⟨first, _, resolved, bound⟩ := typed
  rcases Catalogue.kind_of_bindTo bound with rfl | ⟨collection, element, rfl⟩
  · intro own
    subst own
    exact standard custom (Catalogue.mem_of_resolve resolved)
  · simp

/-- The path of a place that steps lead to from a location. -/
def Step.writtenAfter : String → List Step → String
  | location, [] => location
  | location, .name text :: rest => writtenAfter (Validation.fieldPath location text) rest
  | location, .index position :: rest =>
      writtenAfter (Validation.elementPath location position) rest

example : Step.writtenAfter "" [.name "items", .index 3] = "items[3]" := by decide

/-- Steps by fields, and at last by the position of an element. -/
def Step.through (route : List Field) (position : Option Nat) : List Step :=
  route.map (fun field => .name field.name) ++ (position.map .index).toList

/-- Fields that lead from a schema into the records that they hold, one after the other. -/
inductive Route (world : World) : Schema → List Field → Prop
  | here {schema} : Route world schema []
  | last {schema compiled field} : schema.compiled = some compiled → field ∈ compiled.fields →
      Route world schema [field]
  | into {schema compiled field recordClass fields next rest} :
      schema.compiled = some compiled → field ∈ compiled.fields →
      world.heap.look field.sample = .record recordClass fields →
      Route world (world.schema recordClass.number) (next :: rest) →
      Route world schema (field :: next :: rest)

namespace Validation

variable {parse : Parse} {world : World} {config : Configuration} {before after : Trace}
  {fail : Failure}

/-- The failure tells that the element at a position of the field's collection does not have the
shape that the type of its elements asks for. -/
inductive Misfit (world : World) (config : Configuration) (field : Field) (position : Nat)
    (fail : Failure) : Prop
  | intro {path entries first value middle limit collection element type representative gathered
      item rest reached reason last} :
      Admitted world config field path entries first value .toParse middle →
      OfCollection field.type collection element →
      ComesTo (parseTo world config limit) world config collection element path field.sample value
        middle type representative position gathered item rest reached →
      (type.fit world.heap item representative).Yields reached (.refused reason) last →
      fail = .type (elementPath path position) reason →
      Misfit world config field position fail

/-- Where a failure stands that outlasts the policy: at the end of a route on which every field but
the last holds a record and is not optional, or at an element that does not fit, in the collection
which the last field holds. -/
structure Outlasts (world : World) (config : Configuration) (schema : Schema) (location : String)
    (fail : Failure) (route : List Field) (position : Option Nat) : Prop where
  declared : Route world schema route
  written : fail.path = Step.writtenAfter location (Step.through route position)
  through : ∀ field ∈ route.dropLast, field.type = .record ∧ field.declaration.mode ≠ .optional
  misfit : ∀ index, position = some index →
    ∃ field, route.getLast? = some field ∧ Misfit world config field index fail

theorem parseItem_fails_lenient {heap : Heap} {collection : Collection} {type : ValueType}
    {sample gathered item : Value} {place : String} (lenient : config.lenient = true)
    (failed : (parseItem parse heap config collection type sample place gathered item).Yields
      before (.error fail) after) :
    ∃ reason, (type.fit heap item sample).Yields before (.refused reason) after ∧
      fail = .type place reason := by
  rcases parseItem_fails_iff.mp failed with refused | ⟨_, _, _, strict⟩
  · exact refused
  · cases strict.symm.trans lenient

theorem parseTo_bigInteger {limit : Nat} {path : String} {sample value : Value}
    (failed : (parseTo world config limit .bigInteger path sample value).Yields before
      (.error fail) after) : fail.path = path := by
  have told : BigInteger.parse world.heap path value = .ok (.error fail) := by
    cases limit <;> exact (Run.yields_lift.mp failed).1
  obtain ⟨_, rfl⟩ := BigInteger.failure_of_parse told
  rfl

theorem failed_collection {limit : Nat} {type : ValueType} {collection : Collection}
    {element : Option ValueType} {path : String} {sample value : Value}
    (lenient : config.lenient = true) (kind : OfCollection type collection element)
    (failed : (parseTo world config limit type path sample value).Yields before (.error fail)
      after) :
    ∃ below inner representative position gathered item rest reached reason,
      ComesTo (parseTo world config below) world config collection element path sample value before
        inner representative position gathered item rest reached ∧
      (inner.fit world.heap item representative).Yields reached (.refused reason) after ∧
      fail = .type (elementPath path position) reason := by
  cases limit with
  | zero => cases kind <;> simp [parseTo] at failed
  | succ below =>
      rw [kind.parseTo_eq] at failed
      obtain ⟨inner, representative, position, gathered, item, rest, reached, comes, failed⟩ :=
        parseCollection_fails.mp failed
      obtain ⟨reason, refused, told⟩ := parseItem_fails_lenient lenient failed
      exact ⟨below, inner, representative, position, gathered, item, rest, reached, reason, comes,
        refused, told⟩

/-- A failure of an object to a smaller depth stands where one may stand that outlasts the
policy. -/
def OutlastsBelow (world : World) (config : Configuration) (limit : Nat) : Prop :=
  ∀ {below id location data before fail after}, below < limit →
    (validateWith (parseTo world config below) world config (world.schema id) location data).Yields
      before (.error fail) after →
    ∃ route position, Outlasts world config (world.schema id) location fail route position

section Fields

variable {limit : Nat} {field : Field} {path : String} {entries : List (Value × Value)}

/-- A field fails at itself, inside the record that it must hold, or at an element of its
collection. -/
inductive FieldOutlasts (world : World) (config : Configuration) (field : Field) (path : String)
    (fail : Failure) : Prop
  | itself : fail.path = path → FieldOutlasts world config field path fail
  | inside {recordClass fields route position} :
      field.type = .record → field.declaration.mode ≠ .optional →
      world.heap.look field.sample = .record recordClass fields →
      Outlasts world config (world.schema recordClass.number) path fail route position →
      FieldOutlasts world config field path fail
  | element {position} : fail.path = elementPath path position →
      Misfit world config field position fail → FieldOutlasts world config field path fail

theorem fieldOutlasts_of_parseTo {value : Value} {middle : Trace}
    (standard : ∀ custom, field.type ≠ .custom custom) (lenient : config.lenient = true)
    (inner : OutlastsBelow world config limit)
    (admitted : Admitted world config field path entries before value .toParse middle)
    (failed : (parseTo world config limit field.type path field.sample value).Yields middle
      (.error fail) after) (held : ¬ Pardons config field) :
    FieldOutlasts world config field path fail := by
  have collected {collection : Collection} {element : Option ValueType}
      (kind : OfCollection field.type collection element) :
      FieldOutlasts world config field path fail := by
    obtain ⟨_, _, _, _, _, _, _, _, _, comes, refused, told⟩ :=
      failed_collection lenient kind failed
    exact .element (congrArg Failure.path told) (.intro admitted kind comes refused told)
  cases type : field.type with
  | primitive plain => simp [type] at failed
  | bigInteger =>
      rw [type] at failed
      exact .itself (parseTo_bigInteger failed)
  | custom own => exact absurd type (standard own)
  | unbound collection => exact collected (by rw [type]; exact .unbound)
  | bound collection element => exact collected (by rw [type]; exact .bound)
  | record =>
      rw [type] at failed
      obtain ⟨below, rfl, nested⟩ := parseTo_record failed
      have demanded : field.declaration.mode ≠ .optional :=
        fun optional => held ⟨lenient, optional, by rw [type]; rfl⟩
      by_cases record : ∃ recordClass fields,
        world.heap.look field.sample = .record recordClass fields
      · obtain ⟨recordClass, fields, shape⟩ := record
        rw [parseObject_of_record shape] at nested
        obtain ⟨route, position, outlasts⟩ := inner (by omega) nested
        exact .inside type demanded shape outlasts
      · rw [parseObject_of_no_record fun recordClass fields shape =>
          record ⟨recordClass, fields, shape⟩] at nested
        split at nested <;> simp at nested

theorem fieldOutlasts_of_guardField
    (standard : ∀ custom, field.type ≠ .custom custom) (lenient : config.lenient = true)
    (inner : OutlastsBelow world config limit)
    (failed : (guardField (parseTo world config limit) world config field path entries).Yields
      before (.failed fail) after) : FieldOutlasts world config field path fail := by
  rcases guardField_yields.mp failed with settled | ⟨_, _, _, told, _⟩
  · cases settles_of_settleField settled with
    | unsought sought =>
        cases sought
        exact .itself rfl
    | refused _ _ | rejected _ _ _ _ => exact .itself rfl
    | failed admitted parsed held =>
        exact fieldOutlasts_of_parseTo standard lenient inner admitted parsed held
  · cases told
    exact .itself rfl

end Fields

/-- The failure of a field is that of the object, one step further out. -/
theorem FieldOutlasts.outlasts {schema : Schema} {compiled : Compiled} {field : Field}
    {location : String} (known : schema.compiled = some compiled) (member : field ∈ compiled.fields)
    (outlasts : FieldOutlasts world config field (fieldPath location field.name) fail) :
    ∃ route position, Outlasts world config schema location fail route position := by
  cases outlasts with
  | itself written =>
      exact ⟨[field], none, .last known member, written, by simp, by simp⟩
  | element written misfit =>
      refine ⟨[field], some _, .last known member, written, by simp, ?_⟩
      intro index same
      cases same
      exact ⟨field, rfl, misfit⟩
  | @inside recordClass fields route position type demanded shape inner =>
      refine ⟨field :: route, position, ?_, inner.written, ?_, ?_⟩
      · cases declared : route with
        | nil => exact .last known member
        | cons next rest => exact .into known member shape (declared ▸ inner.declared)
      · intro passed within
        cases route with
        | nil => simp at within
        | cons next rest =>
            rw [List.dropLast_cons_of_ne_nil (by simp)] at within
            rcases List.mem_cons.mp within with rfl | later
            · exact ⟨type, demanded⟩
            · exact inner.through passed later
      · intro index same
        obtain ⟨last, found, misfit⟩ := inner.misfit index same
        exact ⟨last, by simp [List.getLast?_cons, found], misfit⟩

theorem outlasts_of_validateWith (standard : world.Standard) (lenient : config.lenient = true)
    (limit : Nat) {id : SchemaId} {location : String} {data : Value}
    (failed : (validateWith (parseTo world config limit) world config (world.schema id) location
      data).Yields before (.error fail) after) :
    ∃ route position, Outlasts world config (world.schema id) location fail route position := by
  -- A nested record may lie several limits down, under as many collections.
  induction limit using Nat.strongRecOn generalizing id location data before fail after with
  | ind limit ih =>
      cases validates_of_validateWith failed with
      | refused _ _ _ => exact ⟨[], none, .here, rfl, by simp, by simp⟩
      | failed known mapping fills =>
          obtain ⟨field, member, _, guarded⟩ := fills.failed_field
          obtain ⟨catalogue, heap, plain, made⟩ := standard known member
          exact (fieldOutlasts_of_guardField (fun _ => made.not_custom plain) lenient
            (fun below => ih _ below) guarded).outlasts known member

section Lists

variable {catalogue : Catalogue} {type : ValueType} {sample value : Value}

/-- A list that one sample stands for all elements of is bound to the type of that sample. -/
theorem bound_of_bind
    (ran : (catalogue.bind world.heap (.unbound .array) (.list [sample])).Yields before type
      after) : ∃ element, type = .bound .array element := by
  simp only [Catalogue.bind, Heap.reach, Catalogue.bindTo, Run.yields_bind] at ran
  obtain ⟨first, looked, found, ran⟩ := ran
  have shown : (Collection.array.first world.heap (.list [sample])).Yields before (some sample)
      before := rfl
  obtain ⟨rfl, rfl⟩ := found.unique shown
  simp only [Run.yields_bind, Run.yields_pure] at ran
  obtain ⟨element, _, _, inner, _, _, made, _⟩ := ran
  exact ⟨inner, made⟩

theorem ComesTo.item_at {collection : Collection} {element : Option ValueType} {path : String}
    {representative gathered item : Value} {position : Nat} {rest : List Value} {reached : Trace}
    (comes : ComesTo parse world config collection element path sample value before type
      representative position gathered item rest reached) :
    ∃ values, world.heap.iterate value = .ok values ∧ values[position]? = some item := by
  obtain ⟨_, _, _, listed, _⟩ := comes
  exact ⟨_, listed, by simp⟩

/-- The failure is that of an element whose shape does not fit, at its position in the list. -/
def RejectedElement (heap : Heap) (data : Value) (fail : Failure) : Prop :=
  ∃ items position item reason, heap.look data = .list items ∧ items[position]? = some item ∧
    fail = .type (elementPath "" position) reason

theorem demand_breaks {outcome : Outcome} {fault : Fault} :
    (World.demand outcome).Breaks before fault after ↔
      ∃ fail, outcome = .error fail ∧ fault = .rejected fail ∧ after = before := by
  cases outcome <;> simp [World.demand]

/-- An operation of the application rejects a list on its own account, while the type for its elements
is looked for or while they are parsed by the type that was found. -/
inductive RejectedOutside (world : World) (config : Configuration) (compiled : Compiled)
    (data : Value) (before : Trace) (fail : Failure) (after : Trace) : Prop
  | binding :
      ((world.catalogue compiled.catalogue).bind world.heap (.unbound .array)
        (.list [compiled.sample])).Breaks before (.rejected fail) after →
      RejectedOutside world config compiled data before fail after
  | parsing {type middle} :
      ((world.catalogue compiled.catalogue).bind world.heap (.unbound .array)
        (.list [compiled.sample])).Yields before type middle →
      ParseRaises world config (limit world data) type "" (.list [compiled.sample]) data middle
        (.rejected fail) after →
      RejectedOutside world config compiled data before fail after

theorem RejectedOutside.false {compiled : Compiled} {data : Value}
    (calm : world.Unrejecting config)
    (rejected : RejectedOutside world config compiled data before fail after) : False := by
  have array : ValueType.Obeys Run.unrejecting (.unbound .array) :=
    .unbound Collection.obeys_array
  cases rejected with
  | binding broke => exact Catalogue.obeys_bindTo (calm.types _) array _ _ _ broke
  | parsing bound raises =>
      have kind := (Catalogue.binds_of_bindTo bound).obeys (calm.types _) array
      exact raises.ne_rejected calm kind rfl

theorem rejects_of_validateList {schema : Schema} {data : Value} {named : Option ConfigurationId}
    (lenient : (world.config (world.governing schema named)).lenient = true)
    (broke : (world.validateList schema data named).Breaks before (.rejected fail) after) :
    RejectedElement world.heap data fail ∨ ∃ compiled, schema.compiled = some compiled ∧
      RejectedOutside world (world.config (world.governing schema named)) compiled data before fail
        after := by
  simp only [World.validateList] at broke
  split at broke
  next items shape =>
    simp only [Run.breaks_bind, Run.breaks_lift, Run.yields_lift, demandCompiled_ok] at broke
    rcases broke with ⟨undeclared, _⟩ | ⟨compiled, _, ⟨known, rfl⟩, broke⟩
    · unfold Schema.demandCompiled at undeclared
      split at undeclared <;> cases undeclared
    rcases broke with broke | ⟨type, bound, made, broke⟩
    · exact .inr ⟨compiled, known, .binding broke⟩
    rcases broke with broke | ⟨outcome, read, parsed, broke⟩
    · exact .inr ⟨compiled, known, .parsing made (parseTo_breaks.mp broke)⟩
    obtain ⟨_, rfl, told, rfl⟩ := demand_breaks.mp broke
    cases told
    obtain ⟨element, rfl⟩ := bound_of_bind made
    obtain ⟨below, inner, representative, position, gathered, item, rest, reached, reason, comes,
      refused, told⟩ := failed_collection lenient .bound parsed
    obtain ⟨values, listed, found⟩ := comes.item_at
    have whole : items = values := by
      simpa [Heap.iterate, Heap.elements?, shape] using listed
    exact .inl ⟨items, position, item, reason, shape, whole ▸ found, told⟩
  next => simp at broke

end Lists

end Validation

theorem Nodes.standard : Nodes.world.Standard := by
  intro id compiled field known member
  have whole : Nodes.world.schema id = Nodes.schema := by
    rcases id with _ | _ | id
    · cases known
    · rfl
    · simp [World.schema, Nodes.world] at known
      cases known
  rw [whole] at known
  cases known
  refine ⟨Catalogue.builtIn, Nodes.heap, by simp [Catalogue.Standard, Catalogue.builtIn], ?_⟩
  exact Nodes.builtIn.fields .root rfl member

theorem Nodes.unrejecting : Nodes.world.Unrejecting (Nodes.world.config 0) where
  types
    | 0, _, member => Catalogue.obeys_builtIn member
    | id + 1, _, member => by simp [World.catalogue, world] at member
  finisher _ := Run.unrejecting.pure
  sink _ _ _ _ broke := nomatch broke

end Exemplar
