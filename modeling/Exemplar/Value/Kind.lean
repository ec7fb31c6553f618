import Exemplar.Heap

/-!
The names of a value's kind: the name of its shape in a document, which mismatches are told with,
and the name of its class, bare or with the module that the class comes from.
-/

namespace Exemplar

namespace Value

def className : Value → String
  | .null => "NoneType"
  | .bool _ => "bool"
  | .int _ => "int"
  | .bigInteger _ => "BigInt"
  | .float _ => "float"
  | .text _ => "str"
  | .bytes _ => "bytes"
  | .date _ => "date"
  | .mode _ => "Required"
  | .pattern _ => "Pattern"
  | .failure _ => "Fail"
  | .list _ => "list"
  | .tuple _ => "tuple"
  | .set _ => "set"
  | .frozenSet _ => "frozenset"
  | .deque _ => "deque"
  | .mapping _ => "dict"
  | .record recordClass _ => recordClass.name
  | .ref _ | .copy _ => "object"

def qualifiedName : Value → String
  | .date _ => "datetime.date"
  | .pattern _ => "re.Pattern"
  | .deque _ => "collections.deque"
  | value => value.className

def shapeName : Value → String
  | .null => "null"
  | .bool _ => "boolean"
  | .int _ | .bigInteger _ | .float _ => "number"
  | .text _ => "string"
  | .list _ | .tuple _ => "array"
  | .mapping _ | .record .. => "object"
  | value => value.className

/-- The class of the first is that of the second, or extends it. Truth values and big integers are
integers. -/
def isInstanceOf (value sample : Value) : Bool :=
  match value, sample with
  | .record lower _, .record upper _ => lower.extends upper
  | .record .., _ | _, .record .. => false
  | .bool _, .int _ | .bigInteger _, .int _ => true
  | value, sample => value.className == sample.className

end Value

namespace Heap

def className (heap : Heap) (value : Value) : String := (heap.look value).className
def qualifiedName (heap : Heap) (value : Value) : String := (heap.look value).qualifiedName
def shapeName (heap : Heap) (value : Value) : String := (heap.look value).shapeName

/-- Emptiness, zero, null and falsehood count as false, all else as true. -/
def isTruthy (heap : Heap) (value : Value) : Bool :=
  match heap.look value with
  | .null => false
  | .bool value => value
  | .int value | .bigInteger value => value != 0
  | .float value => !value.isZero
  | .text value => value != ""
  | .bytes value => !value.isEmpty
  | .list elements | .tuple elements | .set elements | .frozenSet elements | .deque elements =>
      !elements.isEmpty
  | .mapping entries => !entries.isEmpty
  | _ => true

/-- The number of parts of a sized value. -/
def length? (heap : Heap) (value : Value) : Option Nat :=
  match heap.look value with
  | .text value => some value.length
  | .bytes value => some value.length
  | .list elements | .tuple elements | .set elements | .frozenSet elements | .deque elements =>
      some elements.length
  | .mapping entries => some entries.length
  | _ => none

def hasSize (heap : Heap) (value : Value) : Bool := (heap.length? value).isSome

/-- What going through a value yields, one after the other. -/
def elements? (heap : Heap) (value : Value) : Option (List Value) :=
  match heap.look value with
  | .text value => some (value.toList.map fun character => .text (String.ofList [character]))
  | .bytes value => some (value.map fun byte => .int byte.toNat)
  | .list elements | .tuple elements | .set elements | .frozenSet elements | .deque elements =>
      some elements
  | .mapping entries => some (entries.map (·.1))
  | _ => none

end Heap

end Exemplar
