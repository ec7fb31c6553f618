import Exemplar.Fault
import Exemplar.Value.Equality
import Exemplar.Value.Kind

/-!
Hashes of values. Only values that cannot change have one, and equal values have the same: a number
hashes by its integer part and a frozen set by the sum over its members.
-/

namespace Exemplar

namespace Value

def hashText (text : String) : Nat :=
  text.toList.foldl (fun hash character => (31 * hash + character.toNat) % Nat.pow 2 61) 7

def hashPoint : Number.Binary64.Point → Nat
  | .bottom => 1
  | .top => 2
  | .at place => 2 * place.truncate.natAbs % Nat.pow 2 61

def hashQuantity : Quantity → Nat
  | .nan => 0
  | .point place => hashPoint place

end Value

namespace Heap

/-- The hashes of several values, or the fault of the first that has none. -/
def hashAll (hash : Value → Except Fault Nat) : List Value → Except Fault (List Nat)
  | [] => .ok []
  | value :: rest =>
      match hash value with
      | .error fault => .error fault
      | .ok first =>
          match hashAll hash rest with
          | .error fault => .error fault
          | .ok others => .ok (first :: others)

def mixHashes (hashes : List Nat) : Nat :=
  hashes.foldl (fun mixed hash => (1000003 * mixed + hash) % Nat.pow 2 61) 3

def hashTo (heap : Heap) : Nat → Value → Except Fault Nat
  | 0, _ => .error .tooDeep
  | fuel + 1, value =>
      match heap.look value with
      | .null => .ok 5
      | .text text => .ok (Value.hashText text)
      | .bytes bytes => .ok (mixHashes (bytes.map UInt8.toNat))
      | .date date => .ok (mixHashes [date.year, date.month, date.day])
      | .mode mode => .ok (Value.hashText mode.name)
      | .pattern pattern => .ok (Value.hashText pattern.source)
      | .failure fail =>
          .ok (mixHashes [Value.hashText fail.path, Value.hashText fail.code,
            Value.hashText fail.message])
      | .tuple elements =>
          match hashAll (heap.hashTo fuel) elements with
          | .ok hashes => .ok (mixHashes hashes)
          | .error fault => .error fault
      | .frozenSet elements =>
          match hashAll (heap.hashTo fuel) elements with
          | .ok hashes => .ok (hashes.foldl (· + ·) 0)
          | .error fault => .error fault
      | value =>
          match value.quantity? with
          | some quantity => .ok (Value.hashQuantity quantity)
          | none => .error (.unhashable value.qualifiedName)

def hash? (heap : Heap) (value : Value) : Except Fault Nat := heap.hashTo (heap.reach value) value

/-- Adds a value to the members of a set, unless an equal one is there. -/
def addMember (heap : Heap) (members : List Value) (value : Value) : Except Fault (List Value) :=
  match heap.hash? value with
  | .error fault => .error fault
  | .ok _ => .ok (if heap.isAmong value members then members else members ++ [value])

/-- The distinct ones among several values, the first of equal ones kept. -/
def distinct (heap : Heap) : List Value → List Value → Except Fault (List Value)
  | members, [] => .ok members
  | members, value :: rest =>
      match heap.addMember members value with
      | .error fault => .error fault
      | .ok members => heap.distinct members rest

/-- Stores an entry under a key: in place where an equal key is known, else at the end. -/
def setEntry (heap : Heap) (key value : Value) : List (Value × Value) → List (Value × Value)
  | [] => [(key, value)]
  | (other, old) :: rest =>
      if heap.equal other key then (other, value) :: rest
      else (other, old) :: heap.setEntry key value rest

def valueUnder? (heap : Heap) (key : Value) : List (Value × Value) → Option Value
  | [] => none
  | (other, value) :: rest =>
      if heap.equal other key then some value else heap.valueUnder? key rest

/-- The part of a value that a key leads to: a field's name, a key, or a position, which counts from
the end where it is negative. -/
def partUnder? (heap : Heap) (key value : Value) : Option Value :=
  match heap.look value, key with
  | .record _ fields, .text name => Named.get? name fields
  | .mapping entries, key => heap.valueUnder? key entries
  | .list elements, .int index | .tuple elements, .int index =>
      if 0 ≤ index then elements[index.toNat]?
      else if index.natAbs ≤ elements.length then elements[elements.length - index.natAbs]?
      else none
  | _, _ => none

/-- The value that a mapping holds under a name. -/
def named? (name : String) : List (Value × Value) → Option Value
  | [] => none
  | (.text key, value) :: rest => if key = name then some value else named? name rest
  | _ :: rest => named? name rest

end Heap

end Exemplar
