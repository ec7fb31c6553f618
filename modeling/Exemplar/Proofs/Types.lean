import Exemplar.Proofs.Breakdowns
import Exemplar.Proofs.BuiltIn

/-!
What the types of fields are made of. When a field is compiled, its type is put together from the
types of one catalogue, a collection being bound to the type of its sample's representative element
as long as there is one. A law of all registered collections therefore holds throughout the types of
fields. Going through a container yields parts of it.
-/

namespace Exemplar

/-- What has elements to go through. -/
def Value.isContainer : Value → Bool
  | .list _ | .tuple _ | .set _ | .frozenSet _ | .deque _ | .mapping _ => true
  | _ => false

theorem Value.mem_interleave_of_key {key : Value} {entries : List (Value × Value)}
    (member : key ∈ entries.map (·.1)) : key ∈ interleave entries := by
  induction entries with
  | nil => cases member
  | cons entry rest ih =>
      simp only [List.map_cons, List.mem_cons] at member
      simp only [interleave, List.mem_cons]
      rcases member with rfl | later
      · exact .inl rfl
      · exact .inr (.inr (ih later))

theorem Heap.mem_parts_of_container {heap : Heap} {value part : Value} {values : List Value}
    (container : (heap.look value).isContainer = true) (listed : heap.iterate value = .ok values)
    (member : part ∈ values) : part ∈ (heap.look value).parts := by
  cases shape : heap.look value <;> simp [shape, Value.isContainer] at container <;>
    simp only [Heap.iterate, Heap.elements?, shape, Except.ok.injEq] at listed <;> subst listed
  case mapping entries => exact Value.mem_interleave_of_key member
  all_goals exact member

namespace ValueType

/-- The law holds of the type's collection and of those of its elements, to any depth. -/
def Throughout (law : Collection → Prop) : ValueType → Prop
  | .unbound collection => law collection
  | .bound collection element => law collection ∧ element.Throughout law
  | _ => True

variable {law : Collection → Prop} {type : ValueType} {collection : Collection}
  {element : Option ValueType}

/-- What the type makes of values comes to the same by both configurations, as far as it is left to
types of the application. -/
def AlikeBy (one other : Configuration) : ValueType → Prop
  | .bound _ element => element.AlikeBy one other
  | .custom own => own.parse one = own.parse other
  | _ => True

theorem Throughout.own (lawful : type.Throughout law)
    (gathers : Validation.OfCollection type collection element) : law collection := by
  cases gathers with
  | unbound => exact lawful
  | bound => exact lawful.1

theorem AlikeBy.inside {one other : Configuration} (alike : type.AlikeBy one other)
    (gathers : Validation.OfCollection type collection element) :
    ∀ inner ∈ element, inner.AlikeBy one other := by
  cases gathers with
  | unbound => simp
  | bound =>
      rintro _ ⟨⟩
      exact alike

end ValueType

namespace Catalogue

open Validation

/-- How a type is bound to a sample: collections that have a representative element take its type,
all others stay as they are. -/
inductive Binds (catalogue : Catalogue) (heap : Heap) : ValueType → Value → ValueType → Prop
  | plain {type sample} : (∀ collection element, ¬ OfCollection type collection element) →
      Binds catalogue heap type sample type
  | bare {type collection element sample before after} : OfCollection type collection element →
      (collection.first heap sample).Yields before none after →
      Binds catalogue heap type sample type
  | element {type collection element sample before representative after inner made} :
      OfCollection type collection element →
      (collection.first heap sample).Yields before (some representative) after →
      inner ∈ catalogue → Binds catalogue heap inner representative made →
      Binds catalogue heap type sample (.bound collection made)

variable {law : Collection → Prop} {catalogue : Catalogue} {heap : Heap} {sample : Value}
  {type bound : ValueType} {before after : Trace}

/-- What a collection is bound to, or the type itself where the sample has no elements. -/
def bindCollection (catalogue : Catalogue) (heap : Heap) (fuel : Nat) (type : ValueType)
    (collection : Collection) (sample : Value) : Run ValueType := do
  match ← collection.first heap sample with
  | none => return type
  | some representative =>
      let element ← catalogue.resolve heap representative
      return .bound collection (← catalogue.bindTo heap fuel element representative)

theorem bindTo_of_collection {fuel : Nat} {collection : Collection} {element : Option ValueType}
    (gathers : OfCollection type collection element) :
    bindTo catalogue heap (fuel + 1) type sample =
      bindCollection catalogue heap fuel type collection sample := by
  cases gathers <;> rfl

theorem binds_of_bindTo {fuel : Nat}
    (ran : (bindTo catalogue heap fuel type sample).Yields before bound after) :
    Binds catalogue heap type sample bound := by
  induction fuel generalizing type sample bound before after with
  | zero => simp [bindTo] at ran
  | succ fuel ih =>
      by_cases gathered : ∃ collection element, OfCollection type collection element
      · obtain ⟨collection, element, gathers⟩ := gathered
        rw [bindTo_of_collection gathers] at ran
        obtain ⟨first, looked, found, ran⟩ := Run.yields_bind.mp ran
        cases first with
        | none =>
            obtain ⟨rfl, _⟩ := Run.yields_pure.mp ran
            exact .bare gathers found
        | some representative =>
            simp only [Run.yields_bind, Run.yields_pure] at ran
            obtain ⟨inner, _, resolved, made, _, bound, rfl, _⟩ := ran
            exact .element gathers found (mem_of_resolve resolved) (ih bound)
      · have plain : ∀ collection element, ¬ OfCollection type collection element :=
          fun collection element gathers => gathered ⟨collection, element, gathers⟩
        cases type with
        | unbound collection => exact absurd .unbound (plain collection none)
        | bound collection element => exact absurd .bound (plain collection (some element))
        | primitive _ | record | bigInteger | custom _ =>
            obtain ⟨rfl, _⟩ := Run.yields_pure.mp ran
            exact .plain plain

theorem binds_of_typeFor (ran : (typeFor catalogue heap sample).Yields before type after) :
    ∃ found ∈ catalogue, Binds catalogue heap found sample type := by
  obtain ⟨found, _, resolved, bound⟩ := Run.yields_bind.mp ran
  exact ⟨found, mem_of_resolve resolved, binds_of_bindTo bound⟩

theorem Binds.throughout (binds : Binds catalogue heap type sample bound)
    (lawful : ∀ type ∈ catalogue, type.Throughout law) (start : type.Throughout law) :
    bound.Throughout law := by
  induction binds with
  | plain _ | bare _ _ => exact start
  | element gathers _ member _ ih => exact ⟨start.own gathers, ih (lawful _ member)⟩

theorem Binds.alikeBy {one other : Configuration}
    (binds : Binds catalogue heap type sample bound)
    (alike : ∀ type ∈ catalogue, type.AlikeBy one other) (start : type.AlikeBy one other) :
    bound.AlikeBy one other := by
  induction binds with
  | plain _ | bare _ _ => exact start
  | element _ _ member _ ih => exact ih (alike _ member)

theorem throughout_of_typeFor (lawful : ∀ type ∈ catalogue, type.Throughout law)
    (ran : (typeFor catalogue heap sample).Yields before type after) : type.Throughout law := by
  obtain ⟨found, member, binds⟩ := binds_of_typeFor ran
  exact binds.throughout lawful (lawful found member)

end Catalogue

/-- What runs leave to types of the application comes to the same by both configurations. -/
structure World.AlikeBy (world : World) (one other : Configuration) : Prop where
  types {id type} : type ∈ world.catalogue id → type.AlikeBy one other
  fields {id compiled field} : (world.schema id).compiled = some compiled →
    field ∈ compiled.fields → field.type.AlikeBy one other

theorem Validation.alikeBy_of_elementType {world : World} {config one other : Configuration}
    {element : Option ValueType} {representative : Value} {type : ValueType} {before after : Trace}
    (alike : world.AlikeBy one other) (own : ∀ type ∈ element, type.AlikeBy one other)
    (resolved : (elementType world config element representative).Yields before type after) :
    type.AlikeBy one other := by
  cases element with
  | none =>
      obtain ⟨found, member, binds⟩ := Catalogue.binds_of_typeFor resolved
      exact binds.alikeBy (fun _ => alike.types) (alike.types member)
  | some given =>
      obtain ⟨rfl, _⟩ := Run.yields_pure.mp resolved
      exact own _ rfl

end Exemplar
