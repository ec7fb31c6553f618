import Exemplar.Proofs.Depth
import Exemplar.Proofs.Types

/-!
Types are fixed when a field is compiled. A run looks into a catalogue only for a collection whose
sample has a representative element that it is not bound to the type of. Compilation leaves no such
collection behind, and none comes up as long as the samples keep their representative elements, so
it makes no difference which types a catalogue holds by the time of a run.
-/

namespace Exemplar

/-- Going through the sample for a representative element comes to the same in both heaps, at any
time. -/
def Collection.Answers (collection : Collection) (old new : Heap) (sample : Value) : Prop :=
  ∀ before later : Trace, ((collection.first new sample).run.run later).1 =
    ((collection.first old sample).run.run before).1

namespace Heap

/-- The sample has kept what its collections go by: their representative elements, to any depth. Of
other samples it does not matter what has become of them. -/
def Kept (old new : Heap) : ValueType → Value → Prop
  | .unbound collection, sample => collection.Answers old new sample
  | .bound collection element, sample =>
      collection.Answers old new sample ∧
        ∀ before representative after,
          (collection.first old sample).Yields before (some representative) after →
          Kept old new element representative
  | _, _ => True

/-- No collection of the type is left to find out the type of its elements. -/
def Fixed (heap : Heap) : ValueType → Value → Prop
  | .unbound collection, sample => ∀ before representative after,
      ¬ (collection.first heap sample).Yields before (some representative) after
  | .bound collection element, sample => ∀ before representative after,
      (collection.first heap sample).Yields before (some representative) after →
      heap.Fixed element representative
  | _, _ => True

/-- What a value shows of itself: what it is, what it is made of, and so on inward. -/
inductive Shows (heap : Heap) (value : Value) : Value → Prop
  | self : Shows heap value value
  | part {holder part} : Shows heap value holder → part ∈ (heap.look holder).parts →
      Shows heap value part

/-- Nothing that the value shows has been changed. -/
def Unchanged (old new : Heap) (value : Value) : Prop :=
  ∀ part, old.Shows value part → new.look part = old.look part

end Heap

/-- A collection that goes by what its samples show. -/
structure Collection.Observant (collection : Collection) : Prop where
  answers : ∀ {old new : Heap} {sample}, old.Unchanged new sample →
    collection.Answers old new sample
  inside : ∀ {old new : Heap} {sample before representative after}, old.Unchanged new sample →
    (collection.first old sample).Yields before (some representative) after →
    old.Unchanged new representative

namespace Heap

variable {old new : Heap} {type : ValueType} {sample value part : Value}

theorem Shows.trans {inner : Value} (outer : old.Shows value part) (shown : old.Shows part inner) :
    old.Shows value inner := by
  induction shown with
  | self => exact outer
  | part _ member ih => exact .part ih member

/-- Samples that have not been changed are kept. -/
theorem kept_of_unchanged (observant : type.Throughout Collection.Observant)
    (unchanged : old.Unchanged new sample) : old.Kept new type sample := by
  induction type generalizing sample with
  | unbound collection => exact observant.answers unchanged
  | bound collection element ih =>
      exact ⟨observant.1.answers unchanged, fun _ _ _ found =>
        ih observant.2 (observant.1.inside unchanged found)⟩
  | primitive _ | record | bigInteger | custom _ => trivial

end Heap

theorem firstElement_yields {heap : Heap} {sample : Value} {found : Option Value}
    {before after : Trace} :
    (Collection.firstElement heap sample).Yields before found after ↔
      ∃ elements, heap.iterate sample = .ok elements ∧ found = elements.head? ∧ after = before := by
  simp only [Collection.firstElement, Run.yields_bind, Run.yields_lift, Run.yields_pure]
  constructor
  · intro ran
    obtain ⟨elements, _, ⟨listed, rfl⟩, headed, rfl⟩ := ran
    exact ⟨elements, listed, headed, rfl⟩
  · intro ran
    obtain ⟨elements, listed, headed, rfl⟩ := ran
    exact ⟨elements, _, ⟨listed, rfl⟩, headed, rfl⟩

/-- What stands in place and has no parts shows nothing but itself. -/
theorem Heap.unchanged_of_scalar {old new : Heap} {value : Value} (bare : value.parts = [])
    (inPlace : ∀ heap : Heap, heap.look value = value) : old.Unchanged new value := by
  intro part shown
  have same : part = value := by
    induction shown with
    | self => rfl
    | part _ member ih =>
        rw [ih, inPlace, bare] at member
        cases member
  rw [same, inPlace, inPlace]

theorem Gathering.observant (kind : Gathering) : kind.collection.Observant := by
  have first : kind.collection.first = Collection.firstElement := by cases kind <;> rfl
  constructor
  · intro old new sample unchanged before later
    have same : new.iterate sample = old.iterate sample := by
      simp only [Heap.iterate, Heap.elements?, Heap.qualifiedName, unchanged sample .self]
    simp only [first, Collection.firstElement, same]
    cases old.iterate sample <;> rfl
  · intro old new sample before representative after unchanged found
    rw [first, firstElement_yields] at found
    obtain ⟨elements, listed, headed, _⟩ := found
    have member : representative ∈ elements := List.mem_of_head? headed.symm
    by_cases container : (old.look sample).isContainer = true
    · have part := Heap.mem_parts_of_container container listed member
      exact fun inner shown => unchanged inner ((Heap.Shows.part .self part).trans shown)
    · -- Characters and bytes are made on the way, and lie in no heap.
      cases shape : old.look sample <;>
        simp only [shape, Value.isContainer, not_true] at container <;>
        simp only [Heap.iterate, Heap.elements?, shape, reduceCtorEq, Except.ok.injEq] at listed <;>
        subst listed
      · obtain ⟨_, _, rfl⟩ := List.mem_map.mp member
        exact Heap.unchanged_of_scalar rfl fun _ => rfl
      · obtain ⟨_, _, rfl⟩ := List.mem_map.mp member
        exact Heap.unchanged_of_scalar rfl fun _ => rfl

namespace Heap

variable {old new : Heap} {collection : Collection} {sample : Value} {answer other : Option Value}
  {before middle later after : Trace}

theorem answer_eq (answers : collection.Answers old new sample)
    (first : (collection.first old sample).Yields before answer middle)
    (again : (collection.first new sample).Yields later other after) : other = answer := by
  have same := answers before later
  rw [first, again] at same
  exact Except.ok.inj same

/-- What compilation binds a type to is fixed, and stays so while the sample is kept. -/
theorem fixed_of_binds {catalogue : Catalogue} {type bound : ValueType}
    (binds : catalogue.Binds old type sample bound) (kept : old.Kept new bound sample) :
    new.Fixed bound sample := by
  induction binds with
  | @plain type sample plain =>
      cases type with
      | unbound collection => exact absurd .unbound (plain collection none)
      | bound collection element => exact absurd .bound (plain collection (some element))
      | primitive _ | record | bigInteger | custom _ => trivial
  | bare gathers found =>
      cases gathers with
      | unbound =>
          intro _ _ _ again
          cases answer_eq kept found again
      | bound =>
          intro _ _ _ again
          cases answer_eq kept.1 found again
  | element _ found _ _ ih =>
      intro _ _ _ again
      cases answer_eq kept.1 found again
      exact ih (kept.2 _ _ _ found)

theorem fixed_of_compile {catalogue : Catalogue} {name : String} {declaration : Declaration}
    {field : Field}
    (made : (Field.compile catalogue old name declaration sample).Yields before field after)
    (kept : old.Kept new field.type field.sample) : new.Fixed field.type field.sample := by
  simp only [Field.compile, Run.yields_bind, Run.yields_pure] at made
  obtain ⟨type, _, resolved, _, _, _, rfl, _⟩ := made
  obtain ⟨_, _, binds⟩ := Catalogue.binds_of_typeFor resolved
  exact fixed_of_binds binds kept

/-- Parsing by the type comes to a record, whose class is told. -/
inductive Meets (heap : Heap) : ValueType → Value → Nat → Prop
  | record {sample recordClass fields} : heap.look sample = .record recordClass fields →
      Meets heap .record sample recordClass.number
  | element {collection element sample before representative after number} :
      (collection.first heap sample).Yields before (some representative) after →
      Meets heap element representative number →
      Meets heap (.bound collection element) sample number

end Heap

namespace World

/-- Runs of the schema come to the other one. -/
inductive Comes (world : World) (root : SchemaId) : SchemaId → Prop
  | root : Comes world root root
  | field {id compiled field number} : Comes world root id →
      (world.schema id).compiled = some compiled → field ∈ compiled.fields →
      world.heap.Meets field.type field.sample number → Comes world root number

/-- The world with other catalogues. -/
def stocked (world : World) (catalogues : Array Catalogue) : World := { world with catalogues }

end World

/-- The configuration with another catalogue. -/
def Configuration.supplied (config : Configuration) (catalogue : CatalogueId) : Configuration :=
  { config with catalogue }

/-- What the type leaves to the application does not depend on the catalogue that a configuration
names. -/
def ValueType.Heedless (type : ValueType) : Prop :=
  ∀ (config : Configuration) catalogue, type.AlikeBy (config.supplied catalogue) config

/-- The fields that runs of the schema come to are of fixed types, which do not ask for the
configuration's catalogue. -/
def World.FixedFrom (world : World) (root : SchemaId) : Prop :=
  ∀ {id compiled field}, world.Comes root id → (world.schema id).compiled = some compiled →
    field ∈ compiled.fields → world.heap.Fixed field.type field.sample ∧ field.type.Heedless

namespace Validation

variable {world : World} {config : Configuration} {catalogues : Array Catalogue}
  {catalogue : CatalogueId} {parse one other : Parse} {root id : SchemaId}

section Supplying

variable {field : Field} {path location : String} {entries : List (Value × Value)}

theorem parseElements_supplied {heap : Heap} {collection : Collection} {element : ValueType}
    {sample gathered : Value} {index : Nat} {values : List Value} :
    parseElements parse heap (config.supplied catalogue) collection element sample path index
        gathered values =
      parseElements parse heap config collection element sample path index gathered values := by
  induction values generalizing index gathered with
  | nil => rfl
  | cons item rest ih =>
      simp only [parseElements, ih]
      rfl

theorem guardField_supplied :
    guardField parse (world.stocked catalogues) (config.supplied catalogue) field path entries =
      guardField parse world config field path entries := rfl

theorem settleFields_supplied :
    settleFields parse (world.stocked catalogues) (config.supplied catalogue) location =
      settleFields parse world config location := by
  funext entries fields stored
  induction fields generalizing stored with
  | nil => rfl
  | cons field rest ih => simp only [settleFields, ih, guardField_supplied]

theorem validateWith_supplied {schema : Schema} {data : Value} :
    validateWith parse (world.stocked catalogues) (config.supplied catalogue) schema location data =
      validateWith parse world config schema location data := by
  unfold validateWith
  rw [settleFields_supplied]
  rfl

theorem parseObject_supplied {sample value : Value} :
    parseObject parse (world.stocked catalogues) (config.supplied catalogue) path sample value =
      parseObject parse world config path sample value := by
  unfold parseObject
  simp only [validateWith_supplied]
  rfl

end Supplying

section Alike

/-- Two ways to parse that come to the same by every fixed type, with schemas that runs of the root
come to. -/
def ParseAlike (world : World) (root : SchemaId) (one other : Parse) : Prop :=
  ∀ {type path sample value}, world.heap.Fixed type sample → type.Heedless →
    (∀ number, world.heap.Meets type sample number → world.Comes root number) →
    one type path sample value = other type path sample value

theorem alike_on_object {location : String} {data : Value} (fixed : world.FixedFrom root)
    (comes : world.Comes root id) (alike : ParseAlike world root one other) :
    validateWith one world config (world.schema id) location data =
      validateWith other world config (world.schema id) location data := by
  simp only [validateWith]
  split
  next => rfl
  next entries mapping =>
    refine Run.bind_congr_yields fun {_ compiled _} declared => ?_
    have known := demandCompiled_ok.mp (Run.yields_lift.mp declared).1
    have filled : settleFields one world config location entries compiled.fields [] =
        settleFields other world config location entries compiled.fields [] :=
      settleFields_congr fun field member path => guardField_congr fun _ _ =>
        alike (fixed comes known member).1 (fixed comes known member).2 fun _ meets =>
          .field comes known member meets
    rw [filled]
  next => rfl

theorem alike_on_record {path : String} {sample value : Value} (fixed : world.FixedFrom root)
    (alike : ParseAlike world root one other)
    (covered : ∀ number, world.heap.Meets .record sample number → world.Comes root number) :
    parseObject one (world.stocked catalogues) (config.supplied catalogue) path sample value =
      parseObject other world config path sample value := by
  rw [parseObject_supplied]
  unfold parseObject
  split
  next recordClass fields shape => exact alike_on_object fixed (covered _ (.record shape)) alike
  next => rfl

theorem alike_on_collection {type : ValueType} {collection : Collection}
    {element : Option ValueType} {path : String} {sample value : Value}
    (alike : ParseAlike world root one other) (gathers : OfCollection type collection element)
    (fixed : world.heap.Fixed type sample) (heedless : type.Heedless)
    (covered : ∀ number, world.heap.Meets type sample number → world.Comes root number) :
    parseCollection one (world.stocked catalogues) (config.supplied catalogue) collection element
        path sample value =
      parseCollection other world config collection element path sample value := by
  rw [parseCollection_eq, parseCollection_eq]
  refine Run.bind_congr_yields fun {_ empty _} _ => ?_
  refine Run.bind_congr_yields fun {before first after} found => ?_
  cases first with
  | none => rfl
  | some representative =>
      cases gathers with
      | unbound => exact absurd found (fixed before representative after)
      | @bound _ bound =>
          simp only [elementType, pure_bind, parseElements_supplied]
          refine Run.bind_congr_yields fun {_ values _} _ => ?_
          exact parseElements_congr fun _ _ => alike (fixed _ _ _ found) heedless fun _ meets =>
            covered _ (.element found meets)

theorem parseTo_custom_supplied {limit : Nat} {own : Custom} {path : String} {sample value : Value}
    (same : own.parse (config.supplied catalogue) = own.parse config) :
    parseTo (world.stocked catalogues) (config.supplied catalogue) limit (.custom own) path sample
        value =
      parseTo world config limit (.custom own) path sample value := by
  cases limit <;> simp only [parseTo, same, World.stocked]

/-- Neither the catalogues nor the one that is named play a part in parsing by fixed types. -/
theorem alike_parseTo (fixed : world.FixedFrom root) (limit : Nat) :
    ParseAlike world root (parseTo (world.stocked catalogues) (config.supplied catalogue) limit)
      (parseTo world config limit) := by
  induction limit with
  | zero =>
      intro type path sample value _ heedless _
      cases type with
      | custom _ => exact parseTo_custom_supplied (heedless config catalogue)
      | primitive _ | bigInteger | record | unbound _ | bound _ _ => rfl
  | succ limit ih =>
      intro type path sample value settled heedless covered
      cases type with
      | primitive _ | bigInteger => rfl
      | custom _ => exact parseTo_custom_supplied (heedless config catalogue)
      | record => exact alike_on_record fixed ih covered
      | unbound collection => exact alike_on_collection ih .unbound settled heedless covered
      | bound collection element => exact alike_on_collection ih .bound settled heedless covered

/-- Runs of a schema whose fields are of fixed types come to the same with any catalogues, by a
configuration with any catalogue. -/
theorem validateAt_stocked (fixed : world.FixedFrom root) (location : String) (data : Value) :
    (world.stocked catalogues).validateAt (config.supplied catalogue)
        ((world.stocked catalogues).schema root) location data =
      world.validateAt config (world.schema root) location data :=
  validateWith_supplied.trans (alike_on_object fixed .root (alike_parseTo fixed _))

end Alike

end Validation

end Exemplar
