import Exemplar.Proofs.Elements
import Exemplar.Session

/-!
Schemas whose fields have built-in types only. A sample fixes the type of its field: sets and lists
take collections bound to what their first element stands for, records are validated by their own
schema, and all else is told by the name of its shape. Samples may lead round in circles, so the
schemas that one schema uses are given by a relation and not by a tree.
-/

namespace Exemplar

inductive Gathering where
  | array
  | set
deriving DecidableEq

namespace Gathering

def collection : Gathering → Collection
  | .array => .array
  | .set => .set

def wrap : Gathering → List Value → Value
  | .array, elements => .list elements
  | .set, elements => .set elements

def add (heap : Heap) : Gathering → List Value → Value → Except Fault (List Value)
  | .array, elements, value => .ok (elements ++ [value])
  | .set, elements, value => heap.addMember elements value

/-- What a collection with these elements becomes when values are put into it one after another. -/
def gather (heap : Heap) (kind : Gathering) : List Value → List Value → Except Fault (List Value)
  | elements, [] => .ok elements
  | elements, value :: rest =>
      match kind.add heap elements value with
      | .error fault => .error fault
      | .ok grown => gather heap kind grown rest

variable {kind : Gathering} {heap : Heap} {elements values : List Value} {value : Value}
  {before after : Trace}

@[simp] theorem look_wrap : heap.look (kind.wrap elements) = kind.wrap elements := by
  cases kind <;> rfl

@[simp] theorem parts_wrap : (kind.wrap elements).parts = elements := by
  cases kind <;> rfl

@[simp] theorem empty_yields :
    kind.collection.empty.Yields before value after ↔ value = kind.wrap [] ∧ after = before := by
  cases kind <;> exact Run.yields_pure

@[simp] theorem insert_yields {next : Value} :
    (kind.collection.insert heap (kind.wrap elements) value).Yields before next after ↔
      ∃ grown, kind.add heap elements value = .ok grown ∧ next = kind.wrap grown ∧
        after = before := by
  cases kind with
  | array =>
      change (Collection.append heap (.list elements) value).Yields before next after ↔ _
      simp [Collection.append, Heap.look, add, wrap]
  | set =>
      change (Collection.addMember heap (.set elements) value).Yields before next after ↔ _
      simp only [Collection.addMember, Heap.look, add, wrap, Run.yields_bind, Run.yields_lift,
        Run.yields_pure]
      constructor
      · intro found
        obtain ⟨grown, _, ⟨added, rfl⟩, rfl, rfl⟩ := found
        exact ⟨grown, added, rfl, rfl⟩
      · intro found
        obtain ⟨grown, added, rfl, rfl⟩ := found
        exact ⟨grown, _, ⟨added, rfl⟩, rfl, rfl⟩

theorem mem_of_add {grown : List Value} {member : Value}
    (added : kind.add heap elements value = .ok grown) (present : member ∈ grown) :
    member ∈ elements ∨ member = value := by
  cases kind with
  | array =>
      cases added
      simpa using present
  | set =>
      simp only [add, Heap.addMember] at added
      split at added
      next => cases added
      next =>
        cases added
        split at present
        next => exact .inl present
        next => simpa using present

theorem gather_of_insertAll {outcome : Outcome}
    (ran : (Validation.insertAll heap kind.collection (kind.wrap elements) values).Yields
      before outcome after) :
    ∃ grown, kind.gather heap elements values = .ok grown ∧ outcome = .ok (kind.wrap grown) ∧
      after = before := by
  induction values generalizing elements before with
  | nil =>
      simp only [Validation.insertAll, Run.yields_pure] at ran
      exact ⟨elements, rfl, ran⟩
  | cons value rest ih =>
      simp only [Validation.insertAll, Run.yields_bind, insert_yields] at ran
      obtain ⟨_, _, ⟨grown, added, rfl, rfl⟩, ran⟩ := ran
      simpa only [gather, added] using ih ran

end Gathering

namespace Heap

/-- The collection that a sample is, with its elements. -/
def gathering? (heap : Heap) (sample : Value) : Option (Gathering × List Value) :=
  match heap.look sample with
  | .list elements => some (.array, elements)
  | .set elements | .frozenSet elements => some (.set, elements)
  | _ => none

def isRecord (heap : Heap) (value : Value) : Bool :=
  match heap.look value with
  | .record .. => true
  | _ => false

theorem isRecord_eq_false {heap : Heap} {value : Value} :
    heap.isRecord value = false ↔
      ∀ recordClass fields, heap.look value ≠ .record recordClass fields := by
  unfold isRecord
  split <;> simp_all

@[simp] theorem isRecord_wrap {heap : Heap} {kind : Gathering} {elements : List Value} :
    heap.isRecord (kind.wrap elements) = false := by
  cases kind <;> rfl

@[simp] theorem gathering_wrap {heap : Heap} {kind : Gathering} {elements : List Value} :
    heap.gathering? (kind.wrap elements) = some (kind, elements) := by
  cases kind <;> rfl

/-- The type that the built-in types have for a sample. -/
inductive Typed (heap : Heap) : Value → ValueType → Prop
  | unchecked {sample kind} : heap.gathering? sample = some (kind, []) →
      Typed heap sample (.unbound kind.collection)
  | elements {sample kind representative rest element} :
      heap.gathering? sample = some (kind, representative :: rest) →
      Typed heap representative element →
      Typed heap sample (.bound kind.collection element)
  | record {sample recordClass fields} : heap.look sample = .record recordClass fields →
      Typed heap sample .record
  | plain {sample} : heap.gathering? sample = none → heap.isRecord sample = false →
      Typed heap sample (.primitive .fallback)

variable {heap : Heap} {sample : Value} {kind : Gathering} {elements : List Value}
  {before after : Trace}

/-- A sample has one type only. -/
theorem Typed.unique {type other : ValueType} (one : heap.Typed sample type)
    (two : heap.Typed sample other) : type = other := by
  induction one generalizing other with
  | unchecked shape =>
      cases two with
      | unchecked same =>
          cases shape.symm.trans same
          rfl
      | elements same _ => cases shape.symm.trans same
      | plain none _ => cases shape.symm.trans none
      | record look => simp [gathering?, look] at shape
  | elements shape _ ih =>
      cases two with
      | unchecked same => cases shape.symm.trans same
      | elements same inner =>
          cases shape.symm.trans same
          rw [ih inner]
      | plain none _ => cases shape.symm.trans none
      | record look => simp [gathering?, look] at shape
  | record look =>
      cases two with
      | unchecked shape | elements shape _ => simp [gathering?, look] at shape
      | plain _ bare => simp [isRecord, look] at bare
      | record _ => rfl
  | plain none bare =>
      cases two with
      | unchecked shape | elements shape _ => cases none.symm.trans shape
      | record look => simp [isRecord, look] at bare
      | plain _ _ => rfl

/-- The type of a collection is bound to that of the first element, if there is one. -/
theorem Typed.of_gathering {type : ValueType} (typed : heap.Typed sample type)
    (shape : heap.gathering? sample = some (kind, elements)) :
    elements = [] ∧ type = .unbound kind.collection ∨
      ∃ representative rest element, elements = representative :: rest ∧
        type = .bound kind.collection element ∧ heap.Typed representative element := by
  cases typed with
  | unchecked same =>
      cases shape.symm.trans same
      exact .inl ⟨rfl, rfl⟩
  | elements same inner =>
      cases shape.symm.trans same
      exact .inr ⟨_, _, _, rfl, rfl, inner⟩
  | record look => simp [gathering?, look] at shape
  | plain none _ => cases shape.symm.trans none

theorem Typed.of_representative {type : ValueType} {representative : Value} {rest : List Value}
    (typed : heap.Typed sample type)
    (shape : heap.gathering? sample = some (kind, representative :: rest)) :
    ∃ element, type = .bound kind.collection element ∧ heap.Typed representative element := by
  obtain ⟨none, _⟩ | ⟨_, _, element, same, bound, inner⟩ := typed.of_gathering shape
  · cases none
  · cases same
    exact ⟨element, bound, inner⟩

theorem elements_of_gathering (shape : heap.gathering? sample = some (kind, elements)) :
    heap.iterate sample = .ok elements := by
  unfold gathering? at shape
  split at shape <;> simp_all [iterate, elements?]

theorem parts_of_gathering (shape : heap.gathering? sample = some (kind, elements)) :
    (heap.look sample).parts = elements := by
  unfold gathering? at shape
  split at shape <;> simp_all [Value.parts]

theorem hasSize_of_gathering (shape : heap.gathering? sample = some (kind, elements)) :
    heap.hasSize sample = true := by
  unfold gathering? at shape
  unfold hasSize length?
  split at shape <;> simp_all

theorem isRecord_of_gathering (shape : heap.gathering? sample = some (kind, elements)) :
    heap.isRecord sample = false := by
  unfold gathering? at shape
  unfold isRecord
  split at shape <;> simp_all

theorem accepts_of_gathering (shape : heap.gathering? sample = some (kind, elements)) :
    kind.collection.accepts (heap.look sample) = true := by
  unfold gathering? at shape
  split at shape
  case h_4 => cases shape
  all_goals
    next held =>
      cases shape
      rw [held]
      rfl

@[simp] theorem first_yields {found : Option Value}
    (shape : heap.gathering? sample = some (kind, elements)) :
    (kind.collection.first heap sample).Yields before found after ↔
      found = elements.head? ∧ after = before := by
  have opened : kind.collection.first heap sample = Collection.firstElement heap sample := by
    cases kind <;> rfl
  simp only [opened, Collection.firstElement, elements_of_gathering shape, Run.yields_bind,
    Run.yields_lift, Run.yields_pure]
  constructor
  · intro found
    obtain ⟨_, _, ⟨⟨⟩, rfl⟩, rfl, rfl⟩ := found
    exact ⟨rfl, rfl⟩
  · intro same
    obtain ⟨rfl, rfl⟩ := same
    exact ⟨_, _, ⟨rfl, rfl⟩, rfl, rfl⟩

end Heap

namespace Catalogue

variable {catalogue : Catalogue} {heap : Heap} {sample : Value} {type : ValueType}
  {before after : Trace}

/-- The type that is found is one of the catalogue's, and has been asked. -/
theorem suits_of_find
    (ran : (find? heap sample catalogue).Yields before (some type) after) :
    type ∈ catalogue ∧ ∃ first last, (type.suits heap sample).Yields first true last := by
  induction catalogue generalizing before with
  | nil => simp [find?] at ran
  | cons first rest ih =>
      simp only [find?, Run.yields_bind] at ran
      obtain ⟨suits, middle, suited, ran⟩ := ran
      cases suits with
      | true =>
          obtain ⟨same, _⟩ := Run.yields_pure.mp ran
          cases same
          exact ⟨by simp, before, middle, suited⟩
      | false => exact (ih ran).imp_left (List.mem_cons_of_mem first)

theorem suits_of_resolve
    (ran : (resolve catalogue heap sample).Yields before type after) :
    type ∈ catalogue ∧ ∃ first last, (type.suits heap sample).Yields first true last := by
  simp only [resolve, Run.yields_bind] at ran
  obtain ⟨found, middle, searched, ran⟩ := ran
  cases found with
  | none => simp at ran
  | some other =>
      obtain ⟨rfl, _⟩ := Run.yields_pure.mp ran
      exact suits_of_find searched

theorem mem_of_resolve
    (ran : (resolve catalogue heap sample).Yields before type after) : type ∈ catalogue :=
  (suits_of_resolve ran).1

/-- Binding changes collections only, and into collections. -/
theorem kind_of_bindTo {fuel : Nat} {bound : ValueType}
    (ran : (bindTo catalogue heap fuel type sample).Yields before bound after) :
    bound = type ∨ ∃ collection element, bound = .bound collection element := by
  cases fuel with
  | zero => simp [bindTo] at ran
  | succ fuel =>
      cases type with
      | primitive _ | record | bigInteger | custom _ => exact .inl (Run.yields_pure.mp ran).1
      | unbound collection | bound collection _ =>
          simp only [bindTo, Run.yields_bind] at ran
          obtain ⟨first, looked, _, ran⟩ := ran
          cases first with
          | none => exact .inl (Run.yields_pure.mp ran).1
          | some representative =>
              simp only [Run.yields_bind, Run.yields_pure] at ran
              obtain ⟨element, _, _, inner, _, _, rfl, _⟩ := ran
              exact .inr ⟨collection, inner, rfl⟩

def builtInType (heap : Heap) (sample : Value) : ValueType :=
  match heap.gathering? sample with
  | some (kind, _) => .unbound kind.collection
  | none => if heap.isRecord sample then .record else .primitive .fallback

theorem resolve_builtIn : resolve builtIn heap sample = pure (builtInType heap sample) := by
  unfold resolve builtIn builtInType Heap.gathering? Heap.isRecord
  simp only [Catalogue.find?, ValueType.suits, Collection.set, Collection.array]
  cases heap.look sample <;> rfl

theorem typed_of_bindTo {fuel : Nat}
    (ran : (bindTo builtIn heap fuel (builtInType heap sample) sample).Yields before type after) :
    heap.Typed sample type := by
  induction fuel generalizing sample type before after with
  | zero => simp [bindTo] at ran
  | succ fuel ih =>
      cases shape : heap.gathering? sample with
      | none =>
          cases nested : heap.isRecord sample with
          | false =>
              have plain : builtInType heap sample = .primitive .fallback := by
                simp [builtInType, shape, nested]
              simp only [plain, bindTo, Run.yields_pure] at ran
              obtain ⟨rfl, rfl⟩ := ran
              exact .plain shape nested
          | true =>
              have record : builtInType heap sample = .record := by
                simp [builtInType, shape, nested]
              simp only [record, bindTo, Run.yields_pure] at ran
              obtain ⟨rfl, rfl⟩ := ran
              unfold Heap.isRecord at nested
              split at nested
              next look => exact .record look
              next => cases nested
      | some gathered =>
          obtain ⟨kind, elements⟩ := gathered
          have collection : builtInType heap sample = .unbound kind.collection := by
            simp [builtInType, shape]
          simp only [collection, bindTo, Run.yields_bind, Heap.first_yields shape] at ran
          obtain ⟨_, _, ⟨rfl, rfl⟩, ran⟩ := ran
          cases elements with
          | nil =>
              simp only [List.head?_nil, Run.yields_pure] at ran
              obtain ⟨rfl, rfl⟩ := ran
              exact .unchecked shape
          | cons representative rest =>
              simp only [List.head?_cons, resolve_builtIn, pure_bind, Run.yields_bind,
                Run.yields_pure] at ran
              obtain ⟨element, _, bound, rfl, rfl⟩ := ran
              exact .elements shape (ih bound)

theorem typed_of_typeFor (ran : (typeFor builtIn heap sample).Yields before type after) :
    heap.Typed sample type := by
  simp only [typeFor, resolve_builtIn, pure_bind] at ran
  exact typed_of_bindTo ran

end Catalogue

theorem Collection.fit_eq_toParse {collection : Collection} {heap : Heap} {value : Value} :
    collection.fit heap value = .toParse ↔ collection.accepts (heap.look value) = true := by
  simp only [Collection.fit]
  split <;> simp_all

/-- A field is what a catalogue makes of its declaration and its sample. -/
def Field.CompiledBy (catalogue : Catalogue) (heap : Heap) (field : Field) : Prop :=
  ∃ before after, (Field.compile catalogue heap field.name field.declaration field.sample).Yields
    before field after

theorem Field.CompiledBy.typeFor {catalogue : Catalogue} {heap : Heap} {field : Field}
    (compiled : field.CompiledBy catalogue heap) :
    ∃ first last, (catalogue.typeFor heap field.sample).Yields first field.type last := by
  obtain ⟨before, _, ran⟩ := compiled
  simp only [Field.compile, Run.yields_bind, Run.yields_pure] at ran
  obtain ⟨type, middle, typed, checks, _, _, made, _⟩ := ran
  have same : field.type = type := congrArg Field.type made
  exact ⟨before, middle, same ▸ typed⟩

theorem Field.CompiledBy.typed {heap : Heap} {field : Field}
    (compiled : field.CompiledBy Catalogue.builtIn heap) :
    heap.Typed field.sample field.type := by
  obtain ⟨_, _, typed⟩ := compiled.typeFor
  exact Catalogue.typed_of_typeFor typed

theorem Field.CompiledBy.checked {catalogue : Catalogue} {heap : Heap} {field : Field}
    (compiled : field.CompiledBy catalogue heap) :
    Check.compile heap field.sample field.declaration field.type.measure = .ok field.checks := by
  obtain ⟨before, after, ran⟩ := compiled
  simp only [Field.compile, Run.yields_bind, Run.yields_lift, Run.yields_pure] at ran
  obtain ⟨type, _, _, checks, _, ⟨checked, _⟩, made, _⟩ := ran
  rw [made]
  exact checked

/-- The class of the records that a sample stands for: its own class, or that of the elements that
its first element stands for. -/
inductive Heap.StandsFor (heap : Heap) : Value → RecordClass → Prop
  | record {sample recordClass fields} : heap.look sample = .record recordClass fields →
      StandsFor heap sample recordClass
  | element {sample kind representative rest recordClass} :
      heap.gathering? sample = some (kind, representative :: rest) →
      StandsFor heap representative recordClass →
      StandsFor heap sample recordClass

/-- The schemas that validation against one schema can come to. -/
inductive World.Uses (world : World) (root : Schema) : Schema → Prop
  | root : Uses world root root
  | field {schema compiled field recordClass} : Uses world root schema →
      schema.compiled = some compiled → field ∈ compiled.fields →
      world.heap.StandsFor field.sample recordClass →
      Uses world root (world.schema recordClass.number)

/-- A schema and all that it uses are compiled with the built-in types, and the records among their
samples are of the schemas that go by their numbers. -/
structure World.BuiltIn (world : World) (root : Schema) : Prop where
  compiled {schema} : world.Uses root schema → ∃ compiled, schema.compiled = some compiled
  fields {schema compiled field} : world.Uses root schema → schema.compiled = some compiled →
    field ∈ compiled.fields → field.CompiledBy Catalogue.builtIn world.heap
  classes {schema compiled field recordClass} : world.Uses root schema →
    schema.compiled = some compiled → field ∈ compiled.fields →
    world.heap.StandsFor field.sample recordClass →
    (world.schema recordClass.number).recordClass = recordClass

/-- A compiled schema whose samples stand for no records but its own. -/
structure World.SelfContained (world : World) (schema : Schema) (compiled : Compiled) : Prop where
  known : schema.compiled = some compiled
  classes : ∀ field ∈ compiled.fields, ∀ recordClass,
    world.heap.StandsFor field.sample recordClass →
    world.schema recordClass.number = schema ∧ schema.recordClass = recordClass

namespace World.SelfContained

variable {world : World} {schema used : Schema} {compiled other : Compiled} {field : Field}

theorem eq_of_uses (contained : world.SelfContained schema compiled)
    (reached : world.Uses schema used) : used = schema := by
  induction reached with
  | root => rfl
  | field _ known member stands ih =>
      subst ih
      cases contained.known.symm.trans known
      exact (contained.classes _ member _ stands).1

/-- What holds of the schema's fields holds of every field that it uses. -/
theorem of_fields {property : Field → Prop} (contained : world.SelfContained schema compiled)
    (all : ∀ field ∈ compiled.fields, property field) (reached : world.Uses schema used)
    (known : used.compiled = some other) (member : field ∈ other.fields) : property field := by
  rw [contained.eq_of_uses reached] at known
  cases contained.known.symm.trans known
  exact all field member

theorem builtIn (contained : world.SelfContained schema compiled)
    (fields : ∀ field ∈ compiled.fields, field.CompiledBy Catalogue.builtIn world.heap) :
    world.BuiltIn schema where
  compiled reached := by
    rw [contained.eq_of_uses reached]
    exact ⟨_, contained.known⟩
  fields reached known member := contained.of_fields fields reached known member
  classes reached known member stands := by
    rw [contained.eq_of_uses reached] at known
    cases contained.known.symm.trans known
    obtain ⟨own, same⟩ := contained.classes _ member _ stands
    rw [own, same]

end World.SelfContained

section Samples

variable {world : World} {root : Schema} {before after : Trace}

/-- Each class that a sample stands for is that of a schema which the root uses. -/
def Covered (world : World) (root : Schema) (sample : Value) : Prop :=
  ∀ recordClass, world.heap.StandsFor sample recordClass →
    world.Uses root (world.schema recordClass.number) ∧
      (world.schema recordClass.number).recordClass = recordClass

theorem World.BuiltIn.covered {schema : Schema} {compiled : Compiled} {field : Field}
    (builtIn : world.BuiltIn root) (used : world.Uses root schema)
    (known : schema.compiled = some compiled) (member : field ∈ compiled.fields) :
    Covered world root field.sample :=
  fun _ stands =>
    ⟨.field used known member stands, builtIn.classes used known member stands⟩

theorem Covered.representative {sample representative : Value} {kind : Gathering}
    {rest : List Value} (covered : Covered world root sample)
    (shape : world.heap.gathering? sample = some (kind, representative :: rest)) :
    Covered world root representative :=
  fun recordClass stands => covered recordClass (.element shape stands)

/-- Only records are valid as they stand, and only for samples that are records. -/
theorem record_of_settled {type : ValueType} {sample value : Value}
    (typed : world.heap.Typed sample type)
    (fit : (type.fit world.heap value sample).Yields before .settled after) :
    type = .record ∧ world.heap.isRecord value = true := by
  cases typed with
  | unchecked shape | elements shape _ =>
      simp only [ValueType.fit, Collection.fit, Run.yields_pure] at fit
      split at fit <;> cases fit.1
  | plain _ _ =>
      simp only [ValueType.fit, Primitive.fit, Run.yields_pure] at fit
      split at fit <;> cases fit.1
  | record shape =>
      refine ⟨rfl, ?_⟩
      simp only [ValueType.fit, shape] at fit
      split at fit
      next below =>
        unfold Heap.isRecord
        cases look : world.heap.look value <;> simp_all [Value.isInstanceOf]
      next =>
        split at fit <;> cases (Run.yields_pure.mp fit).1

variable {type : ValueType} {sample value : Value}

/-- What is to be parsed for a record is a mapping. -/
theorem mapping_of_record_toParse
    (fit : (ValueType.record.fit world.heap value sample).Yields before .toParse after) :
    ∃ entries, world.heap.look value = .mapping entries := by
  simp only [ValueType.fit] at fit
  split at fit
  next => cases (Run.yields_pure.mp fit).1
  next =>
    split at fit
    next entries mapping => exact ⟨entries, mapping⟩
    next => cases (Run.yields_pure.mp fit).1

theorem mapping_of_toParse {recordClass : RecordClass} {fields : List (String × Value)}
    (typed : world.heap.Typed sample type)
    (shape : world.heap.look sample = .record recordClass fields)
    (fit : (type.fit world.heap value sample).Yields before .toParse after) :
    ∃ entries, world.heap.look value = .mapping entries := by
  cases typed.unique (.record shape)
  exact mapping_of_record_toParse fit

theorem accepted_of_toParse {kind : Gathering} {samples : List Value}
    (typed : world.heap.Typed sample type)
    (shape : world.heap.gathering? sample = some (kind, samples))
    (fit : (type.fit world.heap value sample).Yields before .toParse after) :
    kind.collection.accepts (world.heap.look value) = true := by
  obtain ⟨_, rfl⟩ | ⟨_, _, _, _, rfl, _⟩ := typed.of_gathering shape <;>
    exact Collection.fit_eq_toParse.mp (Run.yields_pure.mp fit).1.symm

theorem shapeName_of_toParse (typed : world.heap.Typed sample type)
    (bare : world.heap.gathering? sample = none) (single : world.heap.isRecord sample = false)
    (fit : (type.fit world.heap value sample).Yields before .toParse after) :
    world.heap.shapeName sample = world.heap.shapeName value := by
  cases typed.unique (.plain bare single)
  simp only [ValueType.fit, Primitive.fit, Run.yields_pure] at fit
  split at fit
  next same => exact same
  next => cases fit.1

/-- What becomes of a value that is parsed by the built-in type of a sample, to a depth. The second
number tells how many of its elements are left out. -/
inductive Parses (world : World) (config : Configuration) (path : String) (sample value : Value)
    (before : Trace) : Nat → Outcome → Nat → Trace → Prop
  | plain {limit} : world.heap.gathering? sample = none → world.heap.isRecord sample = false →
      Parses world config path sample value before limit
        (.ok (Primitive.parse world.heap sample value)) 0 before
  | record {limit recordClass fields outcome after} :
      world.heap.look sample = .record recordClass fields →
      (Validation.validateWith (Validation.parseTo world config limit) world config
        (world.schema recordClass.number) path value).Yields before outcome after →
      Parses world config path sample value before (limit + 1) outcome 0 after
  | unchecked {limit kind values grown} : world.heap.gathering? sample = some (kind, []) →
      world.heap.iterate value = .ok values → kind.gather world.heap [] values = .ok grown →
      Parses world config path sample value before (limit + 1) (.ok (kind.wrap grown)) 0 before
  | passed {limit kind representative rest element values outcome dropped after} :
      world.heap.gathering? sample = some (kind, representative :: rest) →
      world.heap.Typed representative element → world.heap.iterate value = .ok values →
      Validation.Passes (Validation.parseTo world config limit) world.heap config kind.collection
        element representative path 0 (kind.wrap []) values before outcome dropped after →
      Parses world config path sample value before (limit + 1) outcome dropped after

theorem parses_of_parseTo {config : Configuration} {limit : Nat} {path : String}
    {outcome : Outcome} (typed : world.heap.Typed sample type)
    (ran : (Validation.parseTo world config limit type path sample value).Yields before outcome
      after) :
    ∃ dropped, Parses world config path sample value before limit outcome dropped after := by
  cases typed with
  | plain bare single =>
      simp only [Validation.parseTo_primitive, Run.yields_pure] at ran
      obtain ⟨rfl, rfl⟩ := ran
      exact ⟨0, .plain bare single⟩
  | record shape =>
      obtain ⟨below, rfl, nested⟩ := Validation.parseTo_record ran
      rw [Validation.parseObject_of_record shape] at nested
      exact ⟨0, .record shape nested⟩
  | unchecked shape =>
      obtain ⟨below, dropped, rfl, collects⟩ := Validation.parseTo_unbound ran
      cases collects with
      | unchecked emptied first listed inserted =>
          obtain ⟨rfl, rfl⟩ := Gathering.empty_yields.mp emptied
          obtain ⟨_, rfl⟩ := (Heap.first_yields shape).mp first
          obtain ⟨grown, gathered, rfl, rfl⟩ := Gathering.gather_of_insertAll inserted
          exact ⟨0, .unchecked shape listed gathered⟩
      | passed _ first _ _ _ => simp [Heap.first_yields shape] at first
  | elements shape typed =>
      obtain ⟨below, dropped, rfl, collects⟩ := Validation.parseTo_bound ran
      cases collects with
      | unchecked _ first _ _ => simp [Heap.first_yields shape] at first
      | passed emptied first bound listed passes =>
          obtain ⟨rfl, rfl⟩ := Gathering.empty_yields.mp emptied
          simp only [Heap.first_yields shape, List.head?_cons, Option.some.injEq] at first
          obtain ⟨rfl, rfl⟩ := first
          obtain ⟨rfl, rfl⟩ := Run.yields_pure.mp bound
          exact ⟨dropped, .passed shape typed listed passes⟩

end Samples

/-! A schema that goes round in circles: nodes with a text, some tags, a node that comes next and a
node to return to, which is the sample where it is missing. -/

namespace Nodes

def nodeClass : RecordClass := ⟨1, "Node", [1, 0]⟩

def heap : Heap :=
  ⟨#[.record nodeClass
      [("value", .text ""), ("tags", .ref 1), ("next", .ref 0), ("home", .ref 0)],
    .list [.text ""]]⟩

def declarations : List (String × Declaration) :=
  [("value", { sample := .text "" }),
    ("tags", { sample := .ref 1, minimum := some (.int 1), maximum := some (.int 2) }),
    ("next", { sample := .ref 0, mode := .optional }),
    ("home", { sample := .ref 0, mode := .defaulted })]

def fields : List Field :=
  [⟨"value", { sample := .text "" }, .text "", .primitive .fallback, []⟩,
    ⟨"tags", { sample := .ref 1, minimum := some (.int 1), maximum := some (.int 2) }, .ref 1,
      .bound .array (.primitive .fallback),
      [.bySize .below "length" (.int 1) Collection.array.size,
        .bySize .above "length" (.int 2) Collection.array.size]⟩,
    ⟨"next", { sample := .ref 0, mode := .optional }, .ref 0, .record, []⟩,
    ⟨"home", { sample := .ref 0, mode := .defaulted }, .ref 0, .record, []⟩]

def schema : Schema where
  recordClass := nodeClass
  body := declarations
  declarations := declarations
  ancestry := [1, 0]
  config := none
  compiled := some (.of fields 0 (.ref 0))

def world : World where
  heap := heap
  schemas := #[.root, schema]
  configs := #[{ catalogue := 0 }]
  catalogues := #[Catalogue.builtIn]
  default := 0

def pair : Value :=
  .mapping [(.text "value", .text "a"), (.text "tags", .list [.text "b"]),
    (.text "next", .mapping [(.text "value", .text "c"), (.text "tags", .list [.text "d"])])]

/-- A node whose home has a tag that is no text. -/
def astray : Value :=
  .mapping [(.text "value", .text "a"), (.text "tags", .list [.text "b"]),
    (.text "home", .mapping
      [(.text "value", .text "c"), (.text "tags", .list [.text "d", .int 5])])]

theorem compiled_eq {id : SchemaId} {compiled : Compiled}
    (known : (world.schema id).compiled = some compiled) : compiled = .of fields 0 (.ref 0) := by
  match id, known with
  | 0, known => cases known
  | 1, known =>
      cases known
      rfl
  | id + 2, known =>
      have outside : world.schema (id + 2) = Schema.root := rfl
      rw [outside] at known
      cases known

theorem selfContained : world.SelfContained schema (.of fields 0 (.ref 0)) where
  known := rfl
  classes := by
    intro field member recordClass stands
    simp only [fields, List.mem_cons, List.not_mem_nil, or_false] at member
    rcases member with rfl | rfl | rfl | rfl
    · rcases stands with shape | ⟨shape, _⟩ <;> cases shape
    · rcases stands with shape | ⟨shape, inner⟩ <;> cases shape
      rcases inner with shape | ⟨shape, _⟩ <;> cases shape
    · rcases stands with shape | ⟨shape, _⟩ <;> cases shape
      exact ⟨rfl, rfl⟩
    · rcases stands with shape | ⟨shape, _⟩ <;> cases shape
      exact ⟨rfl, rfl⟩

/-- What holds of the fields of nodes holds of every field that nodes use. -/
theorem of_fields {property : Field → Prop} (all : ∀ field ∈ fields, property field) {used : Schema}
    {compiled : Compiled} {field : Field} (reached : world.Uses schema used)
    (known : used.compiled = some compiled) (member : field ∈ compiled.fields) :
    property field :=
  selfContained.of_fields all reached known member

theorem without_fallback : ∀ field ∈ fields, field.declaration.fallback = none := by
  simp [fields]

theorem with_name : ∀ field ∈ fields, field.name ≠ "" := by
  simp [fields]

theorem builtIn : world.BuiltIn schema := by
  refine selfContained.builtIn ?_
  simp only [fields, List.forall_mem_cons, List.not_mem_nil, false_implies, implies_true, and_true]
  exact ⟨⟨[], [], rfl⟩, ⟨[], [], rfl⟩, ⟨[], [], rfl⟩, ⟨[], [], rfl⟩⟩

end Nodes

end Exemplar
