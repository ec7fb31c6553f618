import Exemplar.Declaration
import Exemplar.Value.Hashing
import Exemplar.Value.Order

/-!
The checks that a declaration compiles to, always in one order: lower bound, upper bound, allowed
values, regular expression, integer, custom. Bounds are on the size of sized values and on the value
itself otherwise.
-/

namespace Exemplar

/-- How bounds measure a value: its size, or what stands for it in comparisons, where null means
that it cannot be compared yet. -/
structure Measure where
  size : Heap → Value → Run Nat
  compared : Heap → Value → Run Value

namespace Measure

def length (heap : Heap) (value : Value) : Run Nat :=
  match heap.length? value with
  | some length => return length
  | none => throw (.unsized (heap.qualifiedName value))

def plain : Measure := ⟨length, fun _ value => return value⟩

end Measure

/-- The allowed values, each with its hash where all of them have one. -/
inductive Choices where
  | hashed (members : List (Nat × Value))
  | listed (members : List Value)

namespace Choices

def ofList (heap : Heap) (choices : List Value) : Choices :=
  match Heap.hashAll heap.hash? choices with
  | .ok hashes => .hashed (hashes.zip choices)
  | .error _ => .listed choices

def findHashed (heap : Heap) (members : List (Nat × Value)) (hash : Nat) (value : Value) : Bool :=
  members.any fun member => member.1 == hash && heap.equal value member.2

/-- A value without a hash is looked for by equality; a set takes the hash of the frozen set with
the same members. -/
def holds (heap : Heap) (value : Value) : Choices → Bool
  | .listed members => heap.isAmong value members
  | .hashed members =>
      match heap.hash? value with
      | .ok hash => findHashed heap members hash value
      | .error _ =>
          match heap.look value with
          | .set elements =>
              match heap.hash? (.frozenSet elements) with
              | .ok hash => findHashed heap members hash value
              | .error _ => heap.isAmong value (members.map (·.2))
          | _ => heap.isAmong value (members.map (·.2))

end Choices

inductive Check where
  | bySize (side : Side) (word : String) (limit : Value) (size : Heap → Value → Run Nat)
  | byValue (side : Side) (limit : Value) (compared : Heap → Value → Run Value)
  | allowed (choices : Choices) (listing : String)
  | matching (pattern : Pattern)
  /-- A regular expression given as something that is none, known by its class. -/
  | noRegex (className : String)
  | integer
  | custom (hook : CustomCheck)

/-- The largest integer that a floating-point number still tells from its neighbours. -/
def safeIntegerLimit : Nat := Nat.pow 2 53 - 1

def Heap.holdsSafeInteger (heap : Heap) (value : Value) : Bool :=
  match heap.look value with
  | .int value | .bigInteger value => value.natAbs ≤ safeIntegerLimit
  | .float value =>
      match value.toInt? with
      | some value => value.natAbs ≤ safeIntegerLimit
      | none => false
  | _ => false

/-- The name of the bound that a value on this side breaks. -/
def Side.bound : Side → String
  | .below => "minimum"
  | .above => "maximum"

namespace Check

def outOfBounds (side : Side) (name subject limit : String) (unit : String) : Failure :=
  let bound := side.bound
  let message := s!"{unit} of {subject} {side.sign} {bound} {unit} of {limit}"
  match side with
  | .below => .minimum name message
  | .above => .maximum name message

/-- Applies a check to a value; a failure is located at the field's name. -/
def apply (check : Check) (name : String) (heap : Heap) (value : Value) : Run Verdict :=
  match check with
  | .bySize side word limit measured => do
      let count ← measured heap value
      if ← heap.order side (.int count) limit then
        return .failure (outOfBounds side name (← numeral count) (← heap.display limit) word)
      else return .pass
  | .byValue side limit compared => do
      let subject ← compared heap value
      match subject with
      | .null => return .pass
      | subject =>
          if ← heap.order side subject limit then
            let shown ← heap.display subject
            return .failure (outOfBounds side name shown (← heap.display limit) "value")
          else return .pass
  | .allowed choices listing => do
      if choices.holds heap value then return .pass
      else
        let shown ← heap.display value
        return .failure (.allowed name s!"invalid value: {shown} - valid values are: {listing}")
  | .matching pattern => do
      let shown ← heap.display value
      if pattern.occursIn shown then return .pass
      else
        return .failure (.regex name s!"invalid value: {shown} - must match /{pattern.source}/")
  | .noRegex className => throw (.noAttribute className "search")
  | .integer => do
      if heap.holdsSafeInteger value then return .pass
      else
        let shown ← heap.display value
        return .failure (.integer name s!"value of {shown} is not a safe integer")
  | .custom hook => hook.check heap value

def sizeWord : Value → String
  | .text _ | .bytes _ | .list _ | .tuple _ => "length"
  | _ => "size"

def boundChecks (heap : Heap) (sample : Value) (measure : Measure) (side : Side) :
    Option Value → List Check
  | none => []
  | some limit =>
      if heap.hasSize sample then
        [.bySize side (sizeWord (heap.look sample)) limit measure.size]
      else [.byValue side limit measure.compared]

def allowedChecks (heap : Heap) : Option (List Value) → Except Fault (List Check)
  | none => .ok []
  | some choices => do
      let listing ← Heap.textAll heap.display choices
      return [.allowed (.ofList heap choices) (",".intercalate listing)]

def regexChecks (heap : Heap) : Option Value → Except Fault (List Check)
  | none => .ok []
  | some expression =>
      match heap.look expression with
      | .text source =>
          match Pattern.compile? source {} with
          | some pattern => .ok [.matching pattern]
          | none => .error .badPattern
      | .pattern pattern => .ok [.matching pattern]
      | shape => .ok [.noRegex shape.qualifiedName]

/-- The integer check is on by default for plain integer samples; other numbers opt in, and truth
values never take part. -/
def integerChecks (heap : Heap) (sample : Value) (integer : Option Value) : List Check :=
  match heap.look sample with
  | .int _ => if (integer.map heap.isTruthy).getD true then [.integer] else []
  | .bigInteger _ | .float _ => if (integer.map heap.isTruthy).getD false then [.integer] else []
  | _ => []

def customChecks : Option CustomCheck → List Check
  | none => []
  | some hook => [.custom hook]

def compile (heap : Heap) (sample : Value) (declaration : Declaration) (measure : Measure) :
    Except Fault (List Check) := do
  let allowed ← allowedChecks heap declaration.allowed
  let regex ← regexChecks heap declaration.regex
  return boundChecks heap sample measure .below declaration.minimum ++
    boundChecks heap sample measure .above declaration.maximum ++ allowed ++ regex ++
    integerChecks heap sample declaration.integer ++ customChecks declaration.custom

end Check

end Exemplar
