import Exemplar.ValueType.Collections

/-!
Catalogues: types in order of descending priority, no two of the same. A sample takes the first type
that applies to it.
-/

namespace Exemplar

abbrev Catalogue := List ValueType

namespace Catalogue

def withPriority? (catalogue : Catalogue) (priority : Int) : Option ValueType :=
  catalogue.find? fun type => type.priority == priority

/-- Puts a type before the first one of lower priority. -/
def insert (type : ValueType) : Catalogue → Catalogue
  | [] => [type]
  | existing :: rest =>
      if type.priority < existing.priority then existing :: insert type rest
      else type :: existing :: rest

def add (catalogue : Catalogue) (type : ValueType) : Run Catalogue :=
  match catalogue.withPriority? type.priority with
  | some existing => throw (.samePriority type.name type.priority existing.name)
  | none => do
      Run.debug s!"Registered type '{type.name}' with priority {type.priority}"
      return catalogue.insert type

def addAll (catalogue : Catalogue) : List ValueType → Run Catalogue
  | [] => return catalogue
  | type :: rest => do
      let next ← catalogue.add type
      addAll next rest

def ofList (types : List ValueType) : Run Catalogue := addAll [] types

/-- A catalogue of its own with the same types. -/
def copy (catalogue : Catalogue) : Run Catalogue := ofList catalogue

def builtIn : List ValueType :=
  [.unbound .set, .unbound .array, .record, .primitive .fallback]

def default : Run Catalogue := ofList builtIn

def find? (heap : Heap) (sample : Value) : Catalogue → Run (Option ValueType)
  | [] => return none
  | type :: rest => do
      if ← type.suits heap sample then return some type else find? heap sample rest

def resolve (catalogue : Catalogue) (heap : Heap) (sample : Value) : Run ValueType := do
  match ← catalogue.find? heap sample with
  | some type => return type
  | none => throw (.noType (← heap.literal sample))

/-- Gives a collection the type of its sample's representative element, and that the type of its own
element, and so on inward. -/
def bindTo (catalogue : Catalogue) (heap : Heap) : Nat → ValueType → Value → Run ValueType
  | 0, _, _ => throw .tooDeep
  | fuel + 1, type, sample =>
      match type with
      | .unbound collection | .bound collection _ => do
          match ← collection.first heap sample with
          | none => return type
          | some representative =>
              let element ← catalogue.resolve heap representative
              return .bound collection (← catalogue.bindTo heap fuel element representative)
      | type => return type

def bind (catalogue : Catalogue) (heap : Heap) (type : ValueType) (sample : Value) :
    Run ValueType :=
  catalogue.bindTo heap (heap.reach sample) type sample

/-- The type that a field with this sample gets. -/
def typeFor (catalogue : Catalogue) (heap : Heap) (sample : Value) : Run ValueType := do
  let type ← catalogue.resolve heap sample
  catalogue.bind heap type sample

end Catalogue

end Exemplar
