import Exemplar.Heap

/-!
Equality of values. Numbers are equal by value whatever their kind, truth values counting as zero
and one; sets are equal to frozen sets of the same members; mappings and records compare without
regard to order; otherwise values of different kinds differ.
-/

namespace Exemplar

/-- The value as a number, if it is one. -/
inductive Quantity where
  | nan
  | point (place : Number.Binary64.Point)

namespace Quantity

def ofInt (value : Int) : Quantity := .point (.at (.ofInt value))

def same : Quantity → Quantity → Bool
  | .point left, .point right => left.same right
  | _, _ => false

def less : Quantity → Quantity → Bool
  | .point left, .point right => left.less right
  | _, _ => false

end Quantity

def Value.quantity? : Value → Option Quantity
  | .bool value => some (.ofInt (if value then 1 else 0))
  | .int value | .bigInteger value => some (.ofInt value)
  | .float value => some (match value.point? with
      | some place => .point place
      | none => .nan)
  | _ => none

namespace Heap

/-- A test of two values that may run out of depth. -/
abbrev Comparison := Value → Value → Option Bool

def equalAll (equal : Comparison) : List Value → List Value → Option Bool
  | [], [] => some true
  | left :: lefts, right :: rights =>
      match equal left right with
      | some true => equalAll equal lefts rights
      | answer => answer
  | _, _ => some false

def equalAny (equal : Comparison) (value : Value) : List Value → Option Bool
  | [] => some false
  | other :: rest =>
      match equal value other with
      | some false => equalAny equal value rest
      | answer => answer

/-- Every value of the first list is equal to one of the second. -/
def equalWithin (equal : Comparison) : List Value → List Value → Option Bool
  | [], _ => some true
  | value :: rest, others =>
      match equalAny equal value others with
      | some true => equalWithin equal rest others
      | answer => answer

def entryWith (equal : Comparison) (key : Value) : List (Value × Value) → Option (Option Value)
  | [] => some none
  | (other, value) :: rest =>
      match equal key other with
      | some true => some (some value)
      | some false => entryWith equal key rest
      | none => none

/-- Every entry of the first list has its like in the second. -/
def entriesWithin (equal : Comparison) :
    List (Value × Value) → List (Value × Value) → Option Bool
  | [], _ => some true
  | (key, value) :: rest, others =>
      match entryWith equal key others with
      | none => none
      | some none => some false
      | some (some other) =>
          match equal value other with
          | some true => entriesWithin equal rest others
          | answer => answer

def fieldsWithin (equal : Comparison) :
    List (String × Value) → List (String × Value) → Option Bool
  | [], _ => some true
  | (name, value) :: rest, others =>
      match Named.get? name others with
      | none => some false
      | some other =>
          match equal value other with
          | some true => fieldsWithin equal rest others
          | answer => answer

/-- Equality of two shapes, given equality of their parts. -/
def equalShapes (equal : Comparison) (left right : Value) : Option Bool :=
  match left, right with
  | .null, .null => some true
  | .text first, .text second => some (first == second)
  | .bytes first, .bytes second => some (first == second)
  | .date first, .date second => some (first == second)
  | .mode first, .mode second => some (first == second)
  | .pattern first, .pattern second =>
      some (first.source == second.source && first.options == second.options)
  | .failure first, .failure second => some (first == second)
  | .list first, .list second | .tuple first, .tuple second | .deque first, .deque second =>
      equalAll equal first second
  | .set first, .set second | .set first, .frozenSet second | .frozenSet first, .set second
  | .frozenSet first, .frozenSet second =>
      if first.length = second.length then equalWithin equal first second else some false
  | .mapping first, .mapping second =>
      if first.length = second.length then entriesWithin equal first second else some false
  | .record upper first, .record lower second =>
      if upper.number = lower.number ∧ first.length = second.length then
        fieldsWithin equal first second
      else some false
  | left, right =>
      match left.quantity?, right.quantity? with
      | some first, some second => some (first.same second)
      | _, _ => some false

/-- Equality that looks a bounded number of levels deep and has no answer beyond. -/
def equalTo (heap : Heap) : Nat → Comparison
  | 0, _, _ => none
  | fuel + 1, left, right =>
      if left.sameObject right then some true
      else equalShapes (heap.equalTo fuel) (heap.look left) (heap.look right)

/-- Equality of two values; there is no answer where both go round in circles without ever showing a
difference. -/
def equal? (heap : Heap) (left right : Value) : Option Bool :=
  heap.equalTo (heap.reach left + heap.reach right) left right

def equal (heap : Heap) (left right : Value) : Bool := (heap.equal? left right).getD false

/-- The value is equal to one of the list. -/
def isAmong (heap : Heap) (value : Value) (values : List Value) : Bool :=
  values.any fun other => heap.equal other value

end Heap

end Exemplar
