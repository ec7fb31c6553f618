import Exemplar.Fault
import Exemplar.Value.Equality
import Exemplar.Value.Kind

/-!
The order of values. Numbers, texts, byte strings and dates have their usual order; lists, tuples
and deques are ordered by the first place where they differ; sets by proper inclusion. Values of
other or of different kinds have no order.
-/

namespace Exemplar

inductive Side where
  | below
  | above
deriving DecidableEq

def Side.sign : Side → String
  | .below => "<"
  | .above => ">"

/-- A test of "less than", turned round where the question is "greater than". -/
def Side.ask {α : Type} (side : Side) (less : α → α → Bool) (left right : α) : Bool :=
  match side with
  | .below => less left right
  | .above => less right left

namespace Date

def less (left right : Date) : Bool :=
  if left.year ≠ right.year then left.year < right.year
  else if left.month ≠ right.month then left.month < right.month
  else left.day < right.day

end Date

namespace Heap

def bytesLess : List UInt8 → List UInt8 → Bool
  | _, [] => false
  | [], _ :: _ => true
  | left :: lefts, right :: rights =>
      if left = right then bytesLess lefts rights else left < right

/-- Orders two sequences by the first place where they differ, a shorter one before its
continuations. -/
def orderAll (equal : Comparison) (order : Value → Value → Except Fault Bool) (side : Side) :
    List Value → List Value → Except Fault Bool
  | [], [] => .ok false
  | [], _ :: _ => .ok (side == .below)
  | _ :: _, [] => .ok (side == .above)
  | left :: lefts, right :: rights =>
      match equal left right with
      | none => .error .tooDeep
      | some true => orderAll equal order side lefts rights
      | some false => order left right

def properlyWithin (equal : Comparison) (left right : List Value) : Except Fault Bool :=
  if left.length < right.length then
    match equalWithin equal left right with
    | some answer => .ok answer
    | none => .error .tooDeep
  else .ok false

/-- Asks whether the first value stands on the given side of the second. -/
def orderTo (heap : Heap) (side : Side) : Nat → Value → Value → Except Fault Bool
  | 0, _, _ => .error .tooDeep
  | fuel + 1, left, right =>
      match heap.look left, heap.look right with
      | .text first, .text second => .ok (side.ask (fun a b => decide (a < b)) first second)
      | .bytes first, .bytes second => .ok (side.ask bytesLess first second)
      | .date first, .date second => .ok (side.ask Date.less first second)
      | .list first, .list second | .tuple first, .tuple second | .deque first, .deque second =>
          orderAll (heap.equalTo fuel) (heap.orderTo side fuel) side first second
      | .set first, .set second | .set first, .frozenSet second | .frozenSet first, .set second
      | .frozenSet first, .frozenSet second =>
          match side with
          | .below => properlyWithin (heap.equalTo fuel) first second
          | .above => properlyWithin (heap.equalTo fuel) second first
      | first, second =>
          match first.quantity?, second.quantity? with
          | some low, some high => .ok (side.ask Quantity.less low high)
          | _, _ => .error (.unorderable side.sign first.qualifiedName second.qualifiedName)

def order (heap : Heap) (side : Side) (left right : Value) : Except Fault Bool :=
  heap.orderTo side (heap.reach left + heap.reach right) left right

end Heap

end Exemplar
