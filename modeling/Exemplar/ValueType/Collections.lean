import Exemplar.ValueType

/-!
The collection types: arrays and sets, which every catalogue starts with, deques with their first or
their last element to stand for them, and mappings that are filled from the texts of their elements.
-/

namespace Exemplar

namespace Collection

def isList : Value → Bool
  | .list _ => true
  | _ => false

def isSequence : Value → Bool
  | .list _ | .tuple _ => true
  | _ => false

def isAnySet : Value → Bool
  | .set _ | .frozenSet _ => true
  | _ => false

def isDeque : Value → Bool
  | .deque _ => true
  | _ => false

def isMapping : Value → Bool
  | .mapping _ => true
  | _ => false

/-- The first value that going through a collection yields. -/
def firstElement (heap : Heap) (sample : Value) : Run (Option Value) := do
  let elements ← heap.iterate sample
  return elements.head?

def append (heap : Heap) (collection value : Value) : Run Value :=
  match heap.look collection with
  | .list elements => return .list (elements ++ [value])
  | .deque elements => return .deque (elements ++ [value])
  | shape => throw (.noAttribute shape.qualifiedName "append")

def addMember (heap : Heap) (collection value : Value) : Run Value :=
  match heap.look collection with
  | .set members => do
      let members ← heap.addMember members value
      return .set members
  | shape => throw (.noAttribute shape.qualifiedName "add")

/-- Stores an element under its own text. -/
def addKeyed (heap : Heap) (collection value : Value) : Run Value :=
  match heap.look collection with
  | .mapping entries => do
      let key ← heap.display value
      return .mapping (heap.setEntry (.text key) value entries)
  | shape => throw (.noAttribute shape.qualifiedName "keys")

def array : Collection where
  className := "ArrayType"
  name := "array"
  priority := 300000000
  recognizes := fun heap value => return isList (heap.look value)
  accepts := isSequence
  empty := return .list []
  insert := append
  first := firstElement
  sizing := .length

def set : Collection where
  className := "SetType"
  name := "set"
  priority := 310000000
  recognizes := fun heap value => return isAnySet (heap.look value)
  accepts := fun shape => isSequence shape || isAnySet shape
  empty := return .set []
  insert := addMember
  first := firstElement
  sizing := .distinct

def deque : Collection where
  className := "CollectionType"
  name := "deque"
  priority := 320000000
  recognizes := fun heap value => return isDeque (heap.look value)
  accepts := isSequence
  empty := return .deque []
  insert := append
  first := firstElement
  sizing := .inserted

/-- Deques that the last element of a sample stands for. -/
def lastDeque : Collection :=
  { deque with
    name := "last deque"
    priority := 330000000
    accepts := fun shape => isList shape || isDeque shape
    first := fun heap sample => do
      let elements ← heap.iterate sample
      return elements.getLast? }

/-- Mappings from the texts of the elements to the elements. -/
def keyed : Collection where
  className := "CollectionType"
  name := "keyed"
  priority := 250000000
  recognizes := fun heap value => return isMapping (heap.look value)
  accepts := isSequence
  empty := return .mapping []
  insert := addKeyed
  first := fun heap sample =>
    match heap.look sample with
    | .mapping entries => return (entries.head?.map (·.2))
    | _ => return none
  sizing := .inserted

end Collection

end Exemplar
