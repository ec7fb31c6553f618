import Exemplar.Schema

/-!
Validation. Input is checked and parsed field by field, in the order of declarations, and the first
failure ends the run. Nested records and collections are entered to a bounded depth, which no finite
input reaches that does not meet one fallback value inside itself.
-/

namespace Exemplar

/-- What becomes of one field. -/
inductive FieldOutcome where
  | omitted
  | stored (value : Value)
  | failed (fail : Failure)

/-- Parses a value that fits a type: the type, the path, the sample and the value. -/
abbrev Parse := ValueType → String → Value → Value → Run Outcome

namespace Validation

/-- The elements of a collection, parsed one after the other; under the skip policy an element that
fails is left out with a warning, unless its shape itself does not fit. -/
def parseElements (parse : Parse) (heap : Heap) (config : Configuration) (collection : Collection)
    (element : ValueType) (sample : Value) (path : String) :
    Nat → Value → List Value → Run Outcome
  | _, result, [] => return .ok result
  | index, result, value :: rest => do
      let place := s!"{path}[{index}]"
      match ← element.fit heap value sample with
      | .refused reason => return .error (.type place reason)
      | .settled => do
          let next ← collection.insert heap result value
          parseElements parse heap config collection element sample path (index + 1) next rest
      | .toParse =>
          match ← parse element place sample value with
          | .ok parsed => do
              let next ← collection.insert heap result parsed
              parseElements parse heap config collection element sample path (index + 1) next rest
          | .error fail =>
              if config.lenient then do
                config.sink.report s!"skipping element {fail.path} - {fail.message}"
                parseElements parse heap config collection element sample path (index + 1) result
                  rest
              else return .error fail

def insertAll (heap : Heap) (collection : Collection) : Value → List Value → Run Outcome
  | result, [] => return .ok result
  | result, value :: rest => do
      let next ← collection.insert heap result value
      insertAll heap collection next rest

/-- A collection, with the type of its elements if it is bound; an unbound one takes it from the
catalogue of the run. -/
def parseCollection (parse : Parse) (world : World) (config : Configuration)
    (collection : Collection) (element : Option ValueType) (path : String) (sample value : Value) :
    Run Outcome := do
  let empty ← collection.empty
  match ← collection.first world.heap sample with
  | none =>
      let values ← world.heap.iterate value
      insertAll world.heap collection empty values
  | some representative =>
      let type ← match element with
        | some type => pure type
        | none => (world.catalogue config.catalogue).typeFor world.heap representative
      let values ← world.heap.iterate value
      parseElements parse world.heap config collection type representative path 0 empty values

/-- The value that input holds for a field, or that stands in for it: nothing where the field is
left out. -/
def inputOf (world : World) (config : Configuration) (field : Field) (path : String)
    (entries : List (Value × Value)) : Run (FieldOutcome ⊕ Value) := do
  let key ← config.keys.keyOf field.name
  match (Heap.named? key entries).getD .null with
  | .null =>
      match field.declaration.mode with
      | .optional => return .inl .omitted
      | .required => return .inl (.failed (.missing path))
      | .defaulted => return .inr (← field.type.standIn world.heap field.sample)
  | value => return .inr value

/-- A value that is not allowed gives way to the fallback, if there is one. -/
def substitute (heap : Heap) (declaration : Declaration) (value : Value) : Value :=
  match declaration.allowed, declaration.fallback with
  | some choices, some fallback => if heap.isAmong value choices then value else fallback
  | _, _ => value

def isRecordType : ValueType → Bool
  | .record => true
  | _ => false

def settleField (parse : Parse) (world : World) (config : Configuration) (field : Field)
    (path : String) (entries : List (Value × Value)) : Run FieldOutcome := do
  match ← inputOf world config field path entries with
  | .inl outcome => return outcome
  | .inr given =>
      let value := substitute world.heap field.declaration given
      match ← field.type.fit world.heap value field.sample with
      | .refused reason => return .failed (.type path reason)
      | fit =>
          match ← Field.locate world.heap path (← field.firstFailure world.heap value) with
          | some fail => return .failed fail
          | none =>
              match fit with
              | .settled => return .stored value
              | _ =>
                  match ← parse field.type path field.sample value with
                  | .ok parsed => return .stored parsed
                  | .error fail =>
                      if config.lenient ∧ field.declaration.mode = .optional ∧
                          isRecordType field.type then do
                        config.sink.report s!"skipping nested object {fail.path} - {fail.message}"
                        return .omitted
                      else return .failed fail

section

variable [Fault.Telling]

/-- A field whose processing breaks down fails with what broke it. Putting that into words is not
guarded itself: where it goes wrong, the field around this one is what breaks down. -/
def guardField (parse : Parse) (world : World) (config : Configuration) (field : Field)
    (path : String) (entries : List (Value × Value)) : Run FieldOutcome := do
  match ← Run.outcome (settleField parse world config field path entries) with
  | .ok outcome => return outcome
  | .error fault => do
      Run.debug s!"Unexpected error validating '{path}'"
      return .failed (.unknown path (← fault.told))

def fieldPath (location name : String) : String :=
  if location = "" then name else location ++ "." ++ name

/-- The fields in turn; the values that are stored keep the order of the fields. -/
def settleFields (parse : Parse) (world : World) (config : Configuration) (location : String)
    (entries : List (Value × Value)) :
    List Field → List (String × Value) → Run (Except Failure (List (String × Value)))
  | [], stored => return .ok stored
  | field :: rest, stored => do
      match ← guardField parse world config field (fieldPath location field.name) entries with
      | .omitted => settleFields parse world config location entries rest stored
      | .stored value =>
          settleFields parse world config location entries rest (stored ++ [(field.name, value)])
      | .failed fail => return .error fail

/-- Validates data against a schema. A record of the schema is valid as it stands. -/
def validateWith (parse : Parse) (world : World) (config : Configuration) (schema : Schema)
    (location : String) (data : Value) : Run Outcome := do
  let shape := world.heap.look data
  match shape with
  | .record recordClass _ =>
      if recordClass.extends schema.recordClass then return .ok data
      else
        let _ ← schema.demandCompiled
        return .error (.type location s!"expected object but got {shape.shapeName}")
  | .mapping entries =>
      let compiled ← schema.demandCompiled
      match ← settleFields parse world config location entries compiled.fields [] with
      | .error fail => return .error fail
      | .ok fields =>
          return .ok (← config.finisher.finish world.heap (.record schema.recordClass fields))
  | shape =>
      let _ ← schema.demandCompiled
      return .error (.type location s!"expected object but got {shape.shapeName}")

/-- Input for a nested record: validated by the schema that the sample is a record of. -/
def parseObject (parse : Parse) (world : World) (config : Configuration) (path : String)
    (sample value : Value) : Run Outcome :=
  match world.heap.look sample with
  | .record recordClass _ =>
      validateWith parse world config (world.schema recordClass.number) path value
  | shape =>
      if (world.heap.look value).isInstanceOf shape then return .ok value
      else throw (.notCompiled (Text.quoted shape.className))

/-- Parses to a bounded depth of nested records and collections. -/
def parseTo (world : World) (config : Configuration) : Nat → Parse
  | limit, type, path, sample, value =>
      match type with
      | .primitive _ => return .ok (Primitive.parse world.heap sample value)
      | .bigInteger => BigInteger.parse world.heap path value
      | .custom type => type.parse config world.heap path sample value
      | .record =>
          match limit with
          | 0 => throw .tooDeep
          | limit + 1 => parseObject (parseTo world config limit) world config path sample value
      | .unbound collection =>
          match limit with
          | 0 => throw .tooDeep
          | limit + 1 =>
              parseCollection (parseTo world config limit) world config collection none path sample
                value
      | .bound collection element =>
          match limit with
          | 0 => throw .tooDeep
          | limit + 1 =>
              parseCollection (parseTo world config limit) world config collection (some element)
                path sample value

/-- Validates data against a schema to a bounded depth. -/
def validateTo (world : World) (config : Configuration) (limit : Nat) (schema : Schema)
    (location : String) (data : Value) : Run Outcome :=
  validateWith (parseTo world config limit) world config schema location data

end

def fallbackDepth (declarations : List (String × Declaration)) : Nat :=
  declarations.foldl (fun total entry => total + (entry.2.fallback.map Value.depth).getD 0) 0

/-- The depth to which input can nest, with every fallback value entered once on the way. -/
def limit (world : World) (data : Value) : Nat :=
  world.heap.reach data +
    world.schemas.foldl (fun total schema => total + fallbackDepth schema.declarations) 0 + 1

end Validation

namespace World

variable [Fault.Telling]

/-- Validates data against a schema under a configuration, at a place inside some larger input. -/
def validateAt (world : World) (config : Configuration) (schema : Schema) (location : String)
    (data : Value) : Run Outcome :=
  Validation.validateTo world config (Validation.limit world data) schema location data

def tryValidate (world : World) (schema : Schema) (data : Value) (named : Option ConfigurationId) :
    Run Outcome :=
  world.validateAt (world.config (world.governing schema named)) schema "" data

/-- A failure where a value is demanded. -/
def demand (outcome : Outcome) : Run Value :=
  match outcome with
  | .ok value => return value
  | .error fail => throw (.rejected fail)

def validate (world : World) (schema : Schema) (data : Value) (named : Option ConfigurationId) :
    Run Value := do
  demand (← world.tryValidate schema data named)

/-- Validates a list like the input of an array field whose elements are records of the schema. -/
def validateList (world : World) (schema : Schema) (data : Value) (named : Option ConfigurationId) :
    Run Value := do
  match world.heap.look data with
  | .list _ =>
      let config := world.config (world.governing schema named)
      let compiled ← schema.demandCompiled
      let sample : Value := .list [compiled.sample]
      let type ← (world.catalogue compiled.catalogue).bind world.heap (.unbound .array) sample
      let limit := Validation.limit world data
      demand (← Validation.parseTo world config limit type "" sample data)
  | shape => throw (.notArray shape.shapeName)

/-- All failing checks of a value for one field, located at the field's name. -/
def probe (world : World) (schema : Schema) (name : String) (value : Value) :
    Run (List Failure) := do
  let compiled ← schema.demandCompiled
  let field ← compiled.field name
  field.failures world.heap value

end World

end Exemplar
