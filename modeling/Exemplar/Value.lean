import Exemplar.Failure
import Exemplar.Mode
import Exemplar.Named
import Exemplar.Number.Binary64
import Exemplar.Pattern

/-!
The values that schemas describe. A compound value either stands here in full, freshly built and
shared with nothing, or is a reference to an object of the heap. A `copy` is a fresh deep copy of
such an object that has not been written out yet: it reads like the object, but is another one.
-/

namespace Exemplar

structure Date where
  year : Nat
  month : Nat
  day : Nat
deriving DecidableEq, Inhabited

/-- The class of a record. The lineage holds the numbers of the class itself and of every class that
it extends. -/
structure RecordClass where
  number : Nat
  name : String
  lineage : List Nat
deriving DecidableEq, Inhabited

def RecordClass.extends (lower upper : RecordClass) : Bool := lower.lineage.contains upper.number

inductive Value where
  | null
  | bool (value : Bool)
  | int (value : Int)
  | bigInteger (value : Int)
  | float (value : Number.Binary64)
  | text (value : String)
  | bytes (value : List UInt8)
  | date (value : Date)
  | mode (value : Mode)
  | pattern (value : Pattern)
  | failure (value : Failure)
  | list (elements : List Value)
  | tuple (elements : List Value)
  | set (elements : List Value)
  | frozenSet (elements : List Value)
  | deque (elements : List Value)
  | mapping (entries : List (Value × Value))
  | record (recordClass : RecordClass) (fields : List (String × Value))
  | ref (index : Nat)
  | copy (index : Nat)
deriving Inhabited

namespace Value

/-- Nothing where the value is null. -/
def present? : Value → Option Value
  | .null => none
  | value => some value

def orNull : Option Value → Value
  | some value => value
  | none => .null

mutual

/-- The value with every object it refers to exchanged for a fresh copy of that object. -/
def copied : Value → Value
  | .list elements => .list (copiedAll elements)
  | .tuple elements => .tuple (copiedAll elements)
  | .set elements => .set (copiedAll elements)
  | .frozenSet elements => .frozenSet (copiedAll elements)
  | .deque elements => .deque (copiedAll elements)
  | .mapping entries => .mapping (copiedEntries entries)
  | .record recordClass fields => .record recordClass (copiedFields fields)
  | .ref index => .copy index
  | value => value

def copiedAll : List Value → List Value
  | [] => []
  | value :: rest => value.copied :: copiedAll rest

def copiedEntries : List (Value × Value) → List (Value × Value)
  | [] => []
  | (key, value) :: rest => (key.copied, value.copied) :: copiedEntries rest

def copiedFields : List (String × Value) → List (String × Value)
  | [] => []
  | (name, value) :: rest => (name, value.copied) :: copiedFields rest

end

mutual

/-- How deep the value is nested, objects it refers to aside. -/
def depth : Value → Nat
  | .list elements => depthOfAll elements + 1
  | .tuple elements => depthOfAll elements + 1
  | .set elements => depthOfAll elements + 1
  | .frozenSet elements => depthOfAll elements + 1
  | .deque elements => depthOfAll elements + 1
  | .mapping entries => depthOfEntries entries + 1
  | .record _ fields => depthOfFields fields + 1
  | _ => 1

def depthOfAll : List Value → Nat
  | [] => 0
  | value :: rest => max value.depth (depthOfAll rest)

def depthOfEntries : List (Value × Value) → Nat
  | [] => 0
  | (key, value) :: rest => max (max key.depth value.depth) (depthOfEntries rest)

def depthOfFields : List (String × Value) → Nat
  | [] => 0
  | (_, value) :: rest => max value.depth (depthOfFields rest)

end

def interleave : List (Value × Value) → List Value
  | [] => []
  | (key, value) :: rest => key :: value :: interleave rest

def pairUp : List Value → List (Value × Value)
  | key :: value :: rest => (key, value) :: pairUp rest
  | _ => []

/-- What a compound value is made of, from left to right. -/
def parts : Value → List Value
  | .list elements => elements
  | .tuple elements => elements
  | .set elements => elements
  | .frozenSet elements => elements
  | .deque elements => elements
  | .mapping entries => interleave entries
  | .record _ fields => fields.map (·.2)
  | _ => []

/-- The same compound value made of other parts. -/
def withParts (value : Value) (parts : List Value) : Value :=
  match value with
  | .list _ => .list parts
  | .tuple _ => .tuple parts
  | .set _ => .set parts
  | .frozenSet _ => .frozenSet parts
  | .deque _ => .deque parts
  | .mapping _ => .mapping (pairUp parts)
  | .record recordClass fields => .record recordClass ((fields.map (·.1)).zip parts)
  | value => value

end Value

end Exemplar
