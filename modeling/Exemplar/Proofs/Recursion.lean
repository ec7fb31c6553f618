import Exemplar.Proofs.Containment
import Exemplar.Proofs.Depth
import Exemplar.Proofs.Sessions
import Exemplar.Proofs.Types

/-!
How deep validation goes. Schemas may refer to each other in circles, so it is the data that bounds
the depth: each object that is entered lies deeper in the data than the one before. The values that
stand in for input are not entered, unless a field that holds records or collections can fall back
on another value.
-/

namespace Exemplar

/-- A collection that is filled from containers only, and is empty to begin with. -/
structure Collection.Orderly (collection : Collection) : Prop where
  accepts : ∀ shape, collection.accepts shape = true → shape.isContainer = true
  empty : ∀ {before made after}, collection.empty.Yields before made after →
    ∀ heap : Heap, ∀ values, heap.iterate made = .ok values → values = []

theorem Gathering.orderly (kind : Gathering) : kind.collection.Orderly where
  accepts shape accepted := by
    cases kind <;> cases shape <;> first | rfl | cases accepted
  empty emptied heap values listed := by
    obtain ⟨rfl, _⟩ := Gathering.empty_yields.mp emptied
    cases kind <;> cases listed <;> rfl

namespace Validation

variable {world : World} {config : Configuration}

/-- One level of parsing; what lies inside nested records and collections is left to another
parser. -/
def parseOnce (inner : Parse) (world : World) (config : Configuration) : Parse
  | type, path, sample, value =>
      match type with
      | .primitive _ => return .ok (Primitive.parse world.heap sample value)
      | .bigInteger => BigInteger.parse world.heap path value
      | .custom type => type.parse config world.heap path sample value
      | .record => parseObject inner world config path sample value
      | .unbound collection =>
          parseCollection inner world config collection none path sample value
      | .bound collection element =>
          parseCollection inner world config collection (some element) path sample value

/-- Some levels of parsing over whatever parser there is for what lies deeper. -/
def parseOver (bottom : Parse) (world : World) (config : Configuration) : Nat → Parse
  | 0 => bottom
  | levels + 1 => parseOnce (parseOver bottom world config levels) world config

theorem parseTo_succ (limit : Nat) :
    parseTo world config (limit + 1) = parseOnce (parseTo world config limit) world config := by
  funext type path sample value
  cases type <;> rfl

theorem parseTo_eq_parseOver (limit : Nat) :
    parseTo world config limit = parseOver (parseTo world config 0) world config limit := by
  induction limit with
  | zero => rfl
  | succ limit ih => rw [parseTo_succ, ih, parseOver]

/-- A field that holds records or collections does not fall back on another value. -/
def HoldsInput (field : Field) : Prop :=
  Nests field.type → field.declaration.allowed = none ∨ field.declaration.fallback = none

/-- The collections of every type are orderly, and fields that hold records or collections do not
fall back on other values. -/
structure Orderly (world : World) (config : Configuration) : Prop where
  registered : ∀ type ∈ world.catalogue config.catalogue, type.Throughout Collection.Orderly
  compiled : ∀ {id compiled field}, (world.schema id).compiled = some compiled →
    field ∈ compiled.fields → field.type.Throughout Collection.Orderly
  holds : ∀ {id compiled field}, (world.schema id).compiled = some compiled →
    field ∈ compiled.fields → HoldsInput field

theorem HoldsInput.substitute_eq {field : Field} (holds : HoldsInput field)
    (nests : Nests field.type) (heap : Heap) (value : Value) :
    substitute heap field.declaration value = value := by
  rcases holds nests with unlimited | bare
  · simp [substitute, unlimited]
  · unfold substitute
    rw [bare]
    split
    next none => cases none
    next => rfl

theorem OfCollection.nests {type : ValueType} {collection : Collection}
    {element : Option ValueType} (gathers : OfCollection type collection element) : Nests type := by
  cases gathers <;> trivial

theorem fit_of_collection {type : ValueType} {collection : Collection} {element : Option ValueType}
    {heap : Heap} {value sample : Value} (gathers : OfCollection type collection element) :
    type.fit heap value sample = pure (collection.fit heap value) := by
  cases gathers <;> rfl

section Inside

variable {type : ValueType} {collection : Collection} {element : Option ValueType}
  {sample value item : Value} {values : List Value} {before after : Trace} {levels : Nat}

/-- What fits a collection is a container. -/
theorem container_of_toParse (gathers : OfCollection type collection element)
    (orderly : collection.Orderly)
    (fit : (type.fit world.heap value sample).Yields before .toParse after) :
    (world.heap.look value).isContainer = true := by
  rw [fit_of_collection gathers] at fit
  have compared := (Run.yields_pure.mp fit).1
  simp only [Collection.fit] at compared
  split at compared
  next accepted => exact orderly.accepts _ accepted
  next => cases compared

/-- The elements of what fits a collection lie a level deeper. -/
theorem within_of_element (gathers : OfCollection type collection element)
    (orderly : collection.Orderly)
    (fit : (type.fit world.heap value sample).Yields before .toParse after)
    (listed : world.heap.iterate value = .ok values) (member : item ∈ values)
    (within : world.heap.Within (levels + 1) value) : world.heap.Within levels item :=
  within item (Heap.mem_parts_of_container (container_of_toParse gathers orderly fit) listed member)

/-- A sample is no input for a record of itself. -/
theorem not_toParse_of_sample :
    ¬ (ValueType.record.fit world.heap sample sample).Yields before .toParse after := by
  intro fit
  simp only [ValueType.fit] at fit
  split at fit
  next => simp at fit
  next foreign =>
    cases shape : world.heap.look sample <;>
      simp_all [Value.isInstanceOf]

/-- What stands in for a missing collection has no elements. -/
theorem bare_standIn (gathers : OfCollection type collection element)
    (orderly : collection.Orderly)
    (stood : (type.standIn world.heap sample).Yields before value after)
    (listed : world.heap.iterate value = .ok values) : values = [] := by
  have empty : collection.empty.Yields before value after := by
    cases gathers <;> exact stood
  exact orderly.empty empty world.heap values listed

end Inside

section Agreement

variable {one other : Parse}

/-- Two ways to parse agree on values that fit and are nested no deeper than so many levels. -/
def AgreeTo (world : World) (depth : Nat) (one other : Parse) : Prop :=
  ∀ {type path sample value fitting fitted}, type.Throughout Collection.Orderly →
    world.heap.Within depth value →
    (type.fit world.heap value sample).Yields fitting .toParse fitted →
    one type path sample value = other type path sample value

theorem parseOnce_of_plain {type : ValueType} {path : String} {sample value : Value}
    (plain : ¬ Nests type) :
    parseOnce one world config type path sample value =
      parseOnce other world config type path sample value := by
  cases type with
  | record | unbound _ | bound _ _ => exact absurd trivial plain
  | primitive _ | bigInteger | custom _ => rfl

theorem parseOnce_record {path : String} {sample value : Value} :
    parseOnce one world config .record path sample value =
      parseObject one world config path sample value := rfl

theorem parseOnce_of_collection {type : ValueType} {collection : Collection}
    {element : Option ValueType} {path : String} {sample value : Value}
    (gathers : OfCollection type collection element) :
    parseOnce one world config type path sample value =
      parseCollection one world config collection element path sample value := by
  cases gathers <;> rfl

/-- The type that elements are parsed by is orderly. -/
theorem Orderly.element {type inner : ValueType} {collection : Collection}
    {element : Option ValueType} {representative : Value} {before after : Trace}
    (orderly : Orderly world config) (throughout : type.Throughout Collection.Orderly)
    (gathers : OfCollection type collection element)
    (resolved : (elementType world config element representative).Yields before inner after) :
    inner.Throughout Collection.Orderly := by
  cases gathers with
  | unbound => exact Catalogue.throughout_of_typeFor orderly.registered resolved
  | bound =>
      obtain ⟨rfl, _⟩ := Run.yields_pure.mp resolved
      exact throughout.2

/-- A field comes to parse what lies in its input only. -/
theorem agree_on_field {field : Field} {path : String} {entries : List (Value × Value)}
    {given : Value} {before found fitting fitted : Trace} {depth : Nat}
    (agree : AgreeTo world depth (parseOnce one world config) (parseOnce other world config))
    (throughout : field.type.Throughout Collection.Orderly) (holds : HoldsInput field)
    (within : ∀ part ∈ Value.interleave entries, world.heap.Within depth part)
    (sought : Sought world config field path entries before (.inr given) found)
    (fit : (field.type.fit world.heap (substitute world.heap field.declaration given)
      field.sample).Yields fitting .toParse fitted) :
    parseOnce one world config field.type path field.sample
        (substitute world.heap field.declaration given) =
      parseOnce other world config field.type path field.sample
        (substitute world.heap field.declaration given) := by
  by_cases nests : Nests field.type
  · rw [holds.substitute_eq nests] at fit ⊢
    cases sought with
    | given named present =>
        exact agree throughout (within _ (mem_interleave_of_entryUnder present)) fit
    | standIn named absent mode stood =>
        by_cases gathered : ∃ collection element, OfCollection field.type collection element
        · obtain ⟨collection, element, gathers⟩ := gathered
          rw [parseOnce_of_collection gathers, parseOnce_of_collection gathers]
          refine parseCollection_congr fun _ _ listed member _ => ?_
          cases bare_standIn gathers (throughout.own gathers) stood listed
          cases member
        · generalize field.type = type at nests stood fit gathered
          cases type with
          | unbound collection => exact absurd ⟨collection, none, .unbound⟩ gathered
          | bound collection element => exact absurd ⟨collection, some element, .bound⟩ gathered
          | primitive _ | bigInteger | custom _ => exact nests.elim
          | record =>
              obtain ⟨rfl, _⟩ := Run.yields_pure.mp stood
              exact absurd fit not_toParse_of_sample
  · exact parseOnce_of_plain nests

theorem agree_on_object {id : SchemaId} {location : String} {data : Value} {depth : Nat}
    (orderly : Orderly world config)
    (agree : AgreeTo world depth (parseOnce one world config) (parseOnce other world config))
    (within : world.heap.Within (depth + 1) data) :
    validateWith (parseOnce one world config) world config (world.schema id) location data =
      validateWith (parseOnce other world config) world config (world.schema id) location data := by
  simp only [validateWith]
  split
  next => rfl
  next entries mapping =>
    refine Run.bind_congr_yields fun {_ compiled _} declared => ?_
    have known := demandCompiled_ok.mp (Run.yields_lift.mp declared).1
    have inside : ∀ part ∈ Value.interleave entries, world.heap.Within depth part := by
      intro part member
      exact within part (by rw [mapping]; exact member)
    have filled : settleFields (parseOnce one world config) world config location entries
          compiled.fields [] =
        settleFields (parseOnce other world config) world config location entries
          compiled.fields [] :=
      settleFields_congr fun field member path => guardField_congr fun sought fit =>
        agree_on_field agree (orderly.compiled known member) (orderly.holds known member) inside
          sought fit
    rw [filled]
  next => rfl

theorem agree_on_record {path : String} {sample value : Value} {depth : Nat}
    (orderly : Orderly world config)
    (agree : AgreeTo world depth (parseOnce one world config) (parseOnce other world config))
    (within : world.heap.Within (depth + 1) value) :
    parseObject (parseOnce one world config) world config path sample value =
      parseObject (parseOnce other world config) world config path sample value := by
  unfold parseObject
  split
  next => exact agree_on_object orderly agree within
  next => rfl

theorem agree_one_level {depth : Nat} (orderly : Orderly world config)
    (agree : AgreeTo world depth (parseOnce one world config) (parseOnce other world config)) :
    AgreeTo world (depth + 1) (parseOnce (parseOnce one world config) world config)
      (parseOnce (parseOnce other world config) world config) := by
  intro type path sample value fitting fitted throughout within fit
  by_cases gathered : ∃ collection element, OfCollection type collection element
  · obtain ⟨collection, element, gathers⟩ := gathered
    rw [parseOnce_of_collection gathers, parseOnce_of_collection gathers]
    refine parseCollection_congr fun _ resolved listed member fitted => ?_
    exact agree (orderly.element throughout gathers resolved)
      (within_of_element gathers (throughout.own gathers) fit listed member within) fitted
  · cases type with
    | unbound collection => exact absurd ⟨collection, none, .unbound⟩ gathered
    | bound collection element => exact absurd ⟨collection, some element, .bound⟩ gathered
    | primitive _ | bigInteger | custom _ => exact parseOnce_of_plain id
    | record =>
        rw [parseOnce_record, parseOnce_record]
        exact agree_on_record orderly agree within

theorem agree_parseOver {depth levels more : Nat} (orderly : Orderly world config)
    (bottom ground : Parse) (enough : depth < levels) (deep : depth < more) :
    AgreeTo world depth (parseOver bottom world config levels)
      (parseOver ground world config more) := by
  induction depth generalizing levels more with
  | zero =>
      intro type path sample value fitting fitted _ within
      exact within.elim
  | succ depth ih =>
      obtain ⟨levels, rfl⟩ : ∃ fewer, levels = fewer + 1 + 1 := ⟨levels - 2, by omega⟩
      obtain ⟨more, rfl⟩ : ∃ fewer, more = fewer + 1 + 1 := ⟨more - 2, by omega⟩
      exact agree_one_level orderly (@ih (levels + 1) (more + 1) (by omega) (by omega))

/-- What lies below the depth of the data plays no part in its validation. -/
theorem validateWith_parseOver {id : SchemaId} {location : String} {data : Value}
    {depth levels more : Nat} (orderly : Orderly world config) (bottom ground : Parse)
    (within : world.heap.Within depth data) (enough : depth ≤ levels) (deep : depth ≤ more) :
    validateWith (parseOver bottom world config levels) world config (world.schema id) location
        data =
      validateWith (parseOver ground world config more) world config (world.schema id) location
        data := by
  obtain ⟨depth, rfl⟩ := within.succ
  obtain ⟨levels, rfl⟩ : ∃ fewer, levels = fewer + 1 := ⟨levels - 1, by omega⟩
  obtain ⟨more, rfl⟩ : ∃ fewer, more = fewer + 1 := ⟨more - 1, by omega⟩
  have shallower : depth < levels + 1 := by omega
  have shallow : depth < more + 1 := by omega
  exact agree_on_object orderly (agree_parseOver orderly bottom ground shallower shallow) within

end Agreement

/-- Objects are entered one inside the other, from the first call to the last: so many calls are open
while the last one runs. -/
inductive Opens (world : World) (config : Configuration) : Nat → Call → Call → Prop
  | self {call} : Opens world config 1 call call
  | inside {count call visit value middle nested last} : call.Reaches world config visit →
      Admitted world config visit.field visit.path visit.entries visit.before value .toParse
        middle →
      Enters world config visit.limit visit.field.type visit.path visit.field.sample value middle
        nested →
      Opens world config count nested last → Opens world config (count + 1) call last

section Opening

variable {call nested last : Call} {count levels : Nat}

/-- An object that is entered lies in the value that is parsed. -/
theorem Enters.within {limit : Nat} {type : ValueType} {path : String} {sample value : Value}
    {before fitting fitted : Trace} (orderly : Orderly world config)
    (throughout : type.Throughout Collection.Orderly)
    (enters : Enters world config limit type path sample value before call)
    (fit : (type.fit world.heap value sample).Yields fitting .toParse fitted)
    (within : world.heap.Within levels value) :
    (∃ id, call.schema = world.schema id) ∧ world.heap.Within levels call.data := by
  induction enters generalizing levels fitting fitted with
  | object shape => exact ⟨⟨_, rfl⟩, within⟩
  | @inside _ _ _ _ _ _ _ _ _ _ _ _ item _ _ _ _ gathers comes compared _ ih =>
      obtain ⟨below, rfl⟩ := within.succ
      obtain ⟨emptied, first, resolved, listed, gone⟩ := comes
      have deeper : world.heap.Within below item :=
        within_of_element gathers (throughout.own gathers) fit listed (by simp) within
      obtain ⟨known, inside⟩ := ih (orderly.element throughout gathers resolved) compared deeper
      exact ⟨known, inside.mono (Nat.le_succ below)⟩

/-- What stands in for missing input is not entered, whatever the sample refers to. -/
theorem standIn_not_entered {limit : Nat} {type : ValueType} {path : String} {sample value : Value}
    {found stood before fitting fitted : Trace} (throughout : type.Throughout Collection.Orderly)
    (stands : (type.standIn world.heap sample).Yields found value stood)
    (fit : (type.fit world.heap value sample).Yields fitting .toParse fitted) :
    ¬ Enters world config limit type path sample value before call := by
  intro enters
  cases enters with
  | object shape =>
      obtain ⟨rfl, _⟩ := Run.yields_pure.mp stands
      exact not_toParse_of_sample fit
  | inside gathers comes _ _ =>
      obtain ⟨_, _, _, listed, _⟩ := comes
      have bare := bare_standIn gathers (throughout.own gathers) stands listed
      simp at bare

theorem Enters.nests {limit : Nat} {type : ValueType} {path : String} {sample value : Value}
    {before : Trace} (enters : Enters world config limit type path sample value before call) :
    Nests type := by
  cases enters with
  | object _ => trivial
  | inside gathers _ _ _ => exact gathers.nests

/-- Nothing is entered but what lies inside the object. -/
theorem entered_within {visit : Visit} {id : SchemaId} {value : Value} {middle : Trace}
    (orderly : Orderly world config) (root : call.schema = world.schema id)
    (reaches : call.Reaches world config visit)
    (admitted : Admitted world config visit.field visit.path visit.entries visit.before value
      .toParse middle)
    (enters : Enters world config visit.limit visit.field.type visit.path visit.field.sample value
      middle nested)
    (within : world.heap.Within (levels + 1) call.data) :
    (∃ id, nested.schema = world.schema id) ∧ world.heap.Within levels nested.data := by
  cases reaches with
  | @intro compiled entries done field rest stored _ known mapping order settled =>
      rw [root] at known
      have member : field ∈ compiled.fields := by rw [order]; simp
      have throughout := orderly.compiled known member
      obtain ⟨sought, fit, _⟩ := admitted
      rw [(orderly.holds known member).substitute_eq enters.nests] at enters fit
      cases sought with
      | given named present =>
          refine enters.within orderly throughout fit (within _ ?_)
          rw [mapping]
          exact mem_interleave_of_entryUnder present
      | standIn named absent mode stood =>
          exact absurd enters (standIn_not_entered throughout stood fit)

/-- No more calls are open at once than the data has levels. -/
theorem Opens.count_le {id : SchemaId} (orderly : Orderly world config)
    (opens : Opens world config count call last) (root : call.schema = world.schema id)
    (within : world.heap.Within levels call.data) : count ≤ levels := by
  induction opens generalizing levels id with
  | self =>
      obtain ⟨below, rfl⟩ := within.succ
      omega
  | inside reaches admitted enters _ ih =>
      obtain ⟨below, rfl⟩ := within.succ
      obtain ⟨⟨inner, known⟩, deeper⟩ := entered_within orderly root reaches admitted enters within
      have fewer := ih known deeper
      omega

end Opening

end Validation

namespace Loop

def loopClass : RecordClass := ⟨1, "Loop", [1, 0]⟩

/-- A loop need not be given, and an empty mapping takes the place of whatever is none. -/
def declaration : Declaration where
  sample := .null
  mode := .defaulted
  allowed := some [.mapping []]
  fallback := some (.mapping [])

def field : Field :=
  ⟨"next", declaration, .ref 0, .record, [.allowed (.listed [.mapping []]) "\x7b\x7d"]⟩

def schema : Schema :=
  ⟨loopClass, [("next", declaration)], [("next", declaration)], [1, 0], none,
    some (.of [field] 0 (.ref 0))⟩

def world : World where
  heap := ⟨#[.record loopClass [("next", .ref 0)]]⟩
  schemas := #[.root, schema]
  configs := #[{ catalogue := 0 }]
  catalogues := #[Catalogue.builtIn]
  default := 0

/-- A schema that is defined first and then made to refer to itself. -/
def define : Act Unit := do
  let id ← Session.defineSchema "Loop" [0] [("next", .declared declaration)] none
  Session.repoint id "next" (.ref 0)

theorem world_of_define : ∃ trace, define.Ends Session.start (.ok ()) ⟨world, trace⟩ := ⟨_, rfl⟩

/-- The fallback is a loop again, so each loop opens another one, as far as the limit lets it. -/
theorem opens (limit : Nat) (location : String) (before : Trace) :
    ∃ last, Validation.Opens world (world.config 0) (limit + 1)
      ⟨limit, schema, location, .mapping [], before⟩ last := by
  induction limit generalizing location before with
  | zero => exact ⟨_, .self⟩
  | succ limit ih =>
      obtain ⟨last, opens⟩ := ih (Validation.fieldPath location "next") before
      have reaches : Validation.Call.Reaches world (world.config 0)
          ⟨limit + 1, schema, location, .mapping [], before⟩
          ⟨limit + 1, location, [], field, before⟩ :=
        .intro rfl rfl (List.nil_append [field]).symm rfl
      have admitted : Validation.Admitted world (world.config 0) field
          (Validation.fieldPath location "next") [] before
          (Validation.substitute world.heap field.declaration (.ref 0)) .toParse before :=
        .intro (.standIn rfl rfl rfl rfl) rfl rfl
      have enters : Validation.Enters world (world.config 0) (limit + 1) field.type
          (Validation.fieldPath location "next") field.sample (.mapping []) before
          ⟨limit, schema, Validation.fieldPath location "next", .mapping [], before⟩ :=
        (.object rfl : Validation.Enters world (world.config 0) (limit + 1) .record _ (.ref 0) _ _
          ⟨limit, world.schema loopClass.number, _, _, _⟩)
      exact ⟨last, .inside reaches admitted enters opens⟩

end Loop

open Validation in
/-- Validation is bounded by its input, whatever the schemas refer to: a run of data whose containers
nest to a depth does not come to anything deeper than that, so it ends in the same way whatever would
happen there, and never are more than one call more open than that. This holds where no field that
has records or collections can fall back on another value; where one can, an empty mapping may open
as many calls as there is room for. -/
theorem recursion_bounded {world : World} {config : Configuration} {id : SchemaId}
    {location : String} {data : Value} {depth : Nat} (orderly : Orderly world config)
    (within : world.heap.Within (depth + 1) data) :
    (∀ bottom levels, depth + 1 ≤ levels →
      validateWith (parseOver bottom world config levels) world config (world.schema id) location
          data =
        world.validateAt config (world.schema id) location data) ∧
    (∀ limit before count last,
      Opens world config count ⟨limit, world.schema id, location, data, before⟩ last →
      count ≤ depth + 1) ∧
    ∃ trace, Loop.define.Ends Session.start (.ok ()) ⟨Loop.world, trace⟩ ∧
      Loop.world.heap.Within 1 (.mapping []) ∧ ∀ bound, ∃ limit count last, bound < count ∧
        Opens Loop.world (Loop.world.config 0) count
          ⟨limit, Loop.world.schema 1, "", .mapping [], []⟩ last := by
  refine ⟨?_, ?_, ?_⟩
  · intro bottom levels enough
    rw [World.validateAt, validateTo, parseTo_eq_parseOver]
    rcases Nat.le_total (depth + 1) (limit world data) with deep | shallow
    · exact validateWith_parseOver orderly bottom _ within enough deep
    · have bounded := within.bounded
      have inside : world.heap.depth + data.depth ≤ limit world data := by
        simp only [limit, Heap.reach]
        omega
      exact validateWith_parseOver orderly bottom _ bounded (by omega) inside
  · intro limit before count last opens
    exact opens.count_le orderly rfl within
  · obtain ⟨trace, defined⟩ := Loop.world_of_define
    refine ⟨trace, defined, Heap.within_of_no_parts rfl, fun bound => ?_⟩
    obtain ⟨last, opens⟩ := Loop.opens bound "" []
    exact ⟨bound, bound + 1, last, by omega, opens⟩

namespace Nodes

theorem orderly : Validation.Orderly world (world.config 0) where
  registered type member := by
    have listed : type ∈ Catalogue.builtIn := member
    simp only [Catalogue.builtIn, List.mem_cons, List.not_mem_nil, or_false] at listed
    rcases listed with rfl | rfl | rfl | rfl
    · exact Gathering.set.orderly
    · exact Gathering.array.orderly
    · trivial
    · trivial
  compiled known member := by
    cases compiled_eq known
    simp only [fields, List.mem_cons, List.not_mem_nil, or_false] at member
    rcases member with rfl | rfl | rfl | rfl
    · trivial
    · exact ⟨Gathering.array.orderly, trivial⟩
    · trivial
    · trivial
  holds known member := by
    cases compiled_eq known
    exact fun _ => .inr (without_fallback _ member)

end Nodes

open Validation in
/-- A node inside a node, each with a list of tags: containers nest to a depth of three, so four
levels suffice and no more than four calls are open at once. -/
theorem recursion_bounded_nodes :
    (∀ bottom, validateWith (parseOver bottom Nodes.world (Nodes.world.config 0) 4) Nodes.world
        (Nodes.world.config 0) (Nodes.world.schema 1) "" Nodes.pair =
      Nodes.world.validateAt (Nodes.world.config 0) (Nodes.world.schema 1) "" Nodes.pair) ∧
    ∀ limit before count last,
      Opens Nodes.world (Nodes.world.config 0) count
        ⟨limit, Nodes.world.schema 1, "", Nodes.pair, before⟩ last → count ≤ 4 := by
  have within : Nodes.world.heap.Within 4 Nodes.pair := by
    simp [Heap.Within, Heap.look, Nodes.pair, Value.parts, Value.interleave]
  obtain ⟨settles, bounded, _⟩ := recursion_bounded Nodes.orderly within
  exact ⟨fun bottom => settles bottom 4 (Nat.le_refl 4), bounded⟩

end Exemplar
