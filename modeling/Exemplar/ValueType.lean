import Exemplar.Check
import Exemplar.Configuration
import Exemplar.Number.Numeral

/-!
Value types. A type decides, from a field's sample value, how input for the field is matched,
defaulted and measured. Collections hold the type of their elements once they are bound to a
sample that has one; types of the application enter as the operations they consist of.
-/

namespace Exemplar

/-- How an input's shape compares with the sample's: a reason against it, a value that is valid as
it stands, or a shape that fits and is to be checked and parsed. -/
inductive Fit where
  | refused (reason : String)
  | settled
  | toParse

/-- What parsing yields: the value, or the first failure. -/
abbrev Outcome := Except Failure Value

namespace Outcome

def literal (heap : Heap) : Outcome → Except Fault String
  | .ok value => do return "Success(" ++ (← heap.literal value) ++ ")"
  | .error fail => return s!"Failure({fail.literal})"

end Outcome

/-- How a collection counts what an input will become. -/
inductive Sizing where
  | length
  | distinct
  | inserted
deriving DecidableEq

structure Collection where
  className : String
  name : String
  priority : Int
  recognizes : Heap → Value → Run Bool
  accepts : Value → Bool
  empty : Run Value
  insert : Heap → Value → Value → Run Value
  first : Heap → Value → Run (Option Value)
  sizing : Sizing

/-- Accepts any value whose shape has the sample's name. -/
structure Primitive where
  className : String
  name : String
  priority : Int
  recognizes : Value → Bool

/-- A type of the application, given by its operations. As it parses it is handed the configuration of
the run. It is bound to itself, whatever the catalogue holds. -/
structure Custom where
  className : String
  name : String
  priority : Int
  suits : Heap → Value → Run Bool
  standIn : Heap → Value → Run Value
  fit : Heap → Value → Value → Run Fit
  measure : Measure
  parse : Configuration → Heap → String → Value → Value → Run Outcome

namespace Custom

/-- The type that leaves open whatever a type has to decide. -/
def abstract : Custom where
  className := "Type"
  name := "type"
  priority := 0
  suits := fun _ _ => throw .abstractOperation
  standIn := fun _ sample => return sample
  fit := fun _ _ _ => throw .abstractOperation
  measure := .plain
  parse := fun _ _ _ _ _ => throw .abstractOperation

end Custom

inductive ValueType where
  | primitive (type : Primitive)
  | record
  | bigInteger
  | unbound (collection : Collection)
  | bound (collection : Collection) (element : ValueType)
  | custom (type : Custom)

namespace Heap

/-- A record failure is reachable, and a record failure cannot be copied. The objects already seen
are passed along. -/
def failureFrom (heap : Heap) : Nat → Value → List Address → Bool × List Address
  | 0, _, seen => (false, seen)
  | fuel + 1, value, seen =>
      match value.address? with
      | some address =>
          if seen.contains address then (false, seen)
          else
            let shape := heap.look value
            shape.parts.foldl
              (fun (found, seen) part =>
                if found then (true, seen) else heap.failureFrom fuel part seen)
              (false, address :: seen)
      | none =>
          match value with
          | .failure _ => (true, seen)
          | shape =>
              shape.parts.foldl
                (fun (found, seen) part =>
                  if found then (true, seen) else heap.failureFrom fuel part seen)
                (false, seen)

def holdsFailure (heap : Heap) (value : Value) : Bool :=
  (heap.failureFrom (heap.reach value) value []).1

/-- A fresh deep copy. -/
def deepCopy (heap : Heap) (value : Value) : Except Fault Value :=
  if heap.holdsFailure value then .error (.immutable "Fail") else .ok value.copied

def integerOfText (text : String) : Except Fault Int :=
  match Number.readInteger text with
  | .ok value => .ok value
  | .error .malformed =>
      .error (.malformedInteger (String.ofList ((Text.quoted text).toList.take 200)))
  | .error (.tooLong digits) => .error (.longNumeral (some digits))

def integerOfBytes (bytes : List UInt8) : Except Fault Int :=
  let malformed : Except Fault Int :=
    .error (.malformedInteger (String.ofList ((Text.quotedBytes bytes).toList.take 200)))
  if bytes.all (· < 128) then
    match Number.readInteger (String.ofList (bytes.map fun byte => Char.ofNat byte.toNat)) with
    | .ok value => .ok value
    | .error .malformed => malformed
    | .error (.tooLong digits) => .error (.longNumeral (some digits))
  else malformed

/-- The integer that a value stands for; fractions are cut off. -/
def toInteger (heap : Heap) (value : Value) : Except Fault Int :=
  match heap.look value with
  | .bool value => .ok (if value then 1 else 0)
  | .int value | .bigInteger value => .ok value
  | .float .nan => .error .integerOfNan
  | .float (.infinite _) => .error .integerOfInfinity
  | .float (.finite negative mantissa exponent) =>
      .ok (Number.Dyadic.truncate ⟨Number.Binary64.signed negative mantissa, exponent⟩)
  | .text value => integerOfText value
  | .bytes value => integerOfBytes value
  | shape => .error (.notInteger shape.qualifiedName)

end Heap

namespace Collection

def countInserted (collection : Collection) (heap : Heap) : Value → List Value → Run Value
  | result, [] => return result
  | result, element :: rest => do
      let next ← collection.insert heap result element
      countInserted collection heap next rest

/-- The count of elements that the input will become. -/
def size (collection : Collection) (heap : Heap) (value : Value) : Run Nat :=
  match collection.sizing with
  | .length => Measure.length heap value
  | .distinct =>
      match heap.elements? value with
      | none => Measure.length heap value
      | some elements =>
          match heap.distinct [] elements with
          | .ok members => return members.length
          | .error .tooDeep => throw .tooDeep
          | .error _ => Measure.length heap value
  | .inserted => do
      let empty ← collection.empty
      let elements ← heap.iterate value
      let result ← collection.countInserted heap empty elements
      Measure.length heap result

def fit (collection : Collection) (heap : Heap) (value : Value) : Fit :=
  let shape := heap.look value
  if collection.accepts shape then .toParse
  else .refused s!"expected {collection.name} but got {shape.shapeName}"

end Collection

namespace Primitive

def fallback : Primitive := ⟨"PrimitiveType", "default", 0, fun _ => true⟩

/-- Samples that can change are copied, so that no record shares them. -/
def standIn (heap : Heap) (sample : Value) : Except Fault Value :=
  match heap.look sample with
  | .mapping _ | .list _ | .deque _ | .set _ => heap.deepCopy sample
  | _ => .ok sample

def fit (heap : Heap) (value sample : Value) : Fit :=
  let expected := heap.shapeName sample
  let got := heap.shapeName value
  if expected = got then .toParse else .refused s!"expected {expected} but got {got}"

/-- For a plain integer sample a float without a fraction becomes the integer. -/
def parse (heap : Heap) (sample value : Value) : Value :=
  match heap.look sample, heap.look value with
  | .int _, .float number =>
      match number.toInt? with
      | some whole => .int whole
      | none => value
  | _, _ => value

end Primitive

namespace BigInteger

def fit (heap : Heap) (value : Value) : Fit :=
  match heap.look value with
  | .bigInteger _ => .settled
  | .int _ | .text _ => .toParse
  | shape => .refused s!"expected bigint but got {shape.shapeName}"

/-- A text that is no numeral cannot be compared yet. -/
def compared (heap : Heap) (value : Value) : Except Fault Value :=
  match heap.look value with
  | .text text =>
      if Number.isPlainNumeral (Text.strip text) then (heap.toInteger value).map .int else .ok .null
  | _ => (heap.toInteger value).map .int

def parse (heap : Heap) (path : String) (value : Value) : Except Fault Outcome :=
  let read := (heap.toInteger value).map fun number => (.ok (.bigInteger number) : Outcome)
  match heap.look value with
  | .text text =>
      if Number.isPlainNumeral (Text.strip text) then read
      else .ok (.error (.bigInteger path s!"invalid big integer: {text}"))
  | _ => read

end BigInteger

namespace ValueType

def className : ValueType → String
  | .primitive type => type.className
  | .record => "CheckedObjectType"
  | .bigInteger => "BigIntType"
  | .unbound collection | .bound collection _ => collection.className
  | .custom type => type.className

def name : ValueType → String
  | .primitive type => type.name
  | .record => "checked object"
  | .bigInteger => "bigint"
  | .unbound collection | .bound collection _ => collection.name
  | .custom type => type.name

def priority : ValueType → Int
  | .primitive type => type.priority
  | .record => 200000000
  | .bigInteger => 100000000
  | .unbound collection | .bound collection _ => collection.priority
  | .custom type => type.priority

def literal (type : ValueType) : String :=
  s!"<{type.className} {Text.quoted type.name} priority={type.priority}>"

/-- The type and, of collections, the types of elements inside. -/
def chain : ValueType → List ValueType
  | .bound collection element => .bound collection element :: element.chain
  | type => [type]

def suits (type : ValueType) (heap : Heap) (sample : Value) : Run Bool :=
  match type with
  | .primitive type => return type.recognizes (heap.look sample)
  | .record =>
      match heap.look sample with
      | .record .. => return true
      | _ => return false
  | .bigInteger =>
      match heap.look sample with
      | .bigInteger _ => return true
      | _ => return false
  | .unbound collection | .bound collection _ => collection.recognizes heap sample
  | .custom type => type.suits heap sample

def standIn (type : ValueType) (heap : Heap) (sample : Value) : Run Value :=
  match type with
  | .primitive _ => Primitive.standIn heap sample
  | .record | .bigInteger => return sample
  | .unbound collection | .bound collection _ => collection.empty
  | .custom type => type.standIn heap sample

def fit (type : ValueType) (heap : Heap) (value sample : Value) : Run Fit :=
  match type with
  | .primitive _ => return Primitive.fit heap value sample
  | .record =>
      let shape := heap.look value
      if shape.isInstanceOf (heap.look sample) then return .settled
      else
        match shape with
        | .mapping _ => return .toParse
        | shape => return .refused s!"expected object but got {shape.shapeName}"
  | .bigInteger => return BigInteger.fit heap value
  | .unbound collection | .bound collection _ => return collection.fit heap value
  | .custom type => type.fit heap value sample

def measure : ValueType → Measure
  | .primitive _ | .record => .plain
  | .bigInteger => ⟨Measure.length, fun heap value => BigInteger.compared heap value⟩
  | .unbound collection | .bound collection _ =>
      ⟨collection.size, fun _ value => return value⟩
  | .custom type => type.measure

end ValueType

end Exemplar
