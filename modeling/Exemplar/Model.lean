import Exemplar.Schema

/-!
Descriptions of data models generated from schemas. Each schema that is met gets one model; a
reference back to a schema whose model is still being built becomes a plain mapping.
-/

namespace Exemplar

inductive ModelType where
  | any
  | named (name : String)
  | list (element : ModelType)
  | set (element : ModelType)
  | mapping (key value : ModelType)
  | literal (values : List Value)
  | optional (type : ModelType)
  | model (schema : SchemaId)
deriving Inhabited

structure ModelField where
  name : String
  type : ModelType
  /-- The value of a field that need not be given. -/
  default : Option Value
  description : Option Value
  minLength : Option Value := none
  maxLength : Option Value := none
  atLeast : Option Value := none
  atMost : Option Value := none
  pattern : Option Value := none

structure Model where
  name : String
  fields : List ModelField

/-- What is known of the schemas met so far: nothing of those not listed, and no model yet of those
whose model is being built. -/
abbrev ModelTable := List (SchemaId × Option Model)

namespace ModelTable

def find? (table : ModelTable) (schema : SchemaId) : Option (Option Model) :=
  (List.find? (fun entry => entry.1 == schema) table).map (·.2)

def finish (schema : SchemaId) (model : Model) (table : ModelTable) : ModelTable :=
  table.map fun entry => if entry.1 = schema then (schema, some model) else entry

end ModelTable

namespace Model

/-- The model's name: the schema's, with the ending for schemas exchanged for that of models. -/
def nameFor (schema : String) : String :=
  let characters := schema.toList
  let ending := "Schema".toList
  let stem :=
    if ending.isSuffixOf characters then characters.take (characters.length - ending.length)
    else characters
  String.ofList stem ++ "Model"

/-- Drops every value that repeats an earlier one of the same class. Values without a hash are kept
as they are. -/
def literalValues (heap : Heap) (values : List Value) : List Value :=
  match Heap.hashAll heap.hash? values with
  | .error _ => values
  | .ok _ =>
      values.foldl
        (fun kept value =>
          if kept.any fun other =>
              heap.className other == heap.className value && heap.equal other value
          then kept else kept ++ [value])
        []

/-- A schema and a table of models go in; a type and a table come out. -/
abbrev Build := StateT ModelTable Run

def typeWith (heap : Heap) (modelFor : SchemaId → Build ModelType) : Nat → Value → Build ModelType
  | 0, _ => throw .tooDeep
  | fuel + 1, sample =>
      match heap.look sample with
      | .record recordClass _ => modelFor recordClass.number
      | .list [] => return .list .any
      | .list (first :: _) => return .list (← typeWith heap modelFor fuel first)
      | .set [] | .frozenSet [] => return .set .any
      | .set (first :: _) | .frozenSet (first :: _) =>
          return .set (← typeWith heap modelFor fuel first)
      | .bigInteger _ => return .named "int"
      | .null => return .any
      | shape => return .named shape.className

def boundsOf (heap : Heap) (field : Field) (type : ModelType) (default : Option Value) :
    ModelField :=
  let declaration := field.declaration
  let description := declaration.description.filter heap.isTruthy
  let pattern := declaration.regex.map fun regex =>
    match heap.look regex with
    | .pattern pattern => .text pattern.source
    | _ => regex
  if heap.hasSize field.sample then
    { name := field.name, type, default, description, pattern
      minLength := declaration.minimum, maxLength := declaration.maximum }
  else
    { name := field.name, type, default, description, pattern
      atLeast := declaration.minimum, atMost := declaration.maximum }

def isRecord : Value → Bool
  | .record .. => true
  | _ => false

/-- A field's entry. Allowed values without a fallback take the place of the type. -/
def fieldWith (heap : Heap) (modelFor : SchemaId → Build ModelType) (field : Field) :
    Build ModelField := do
  let plain ← typeWith heap modelFor (heap.reach field.sample) field.sample
  let declaration := field.declaration
  let type := match declaration.allowed, declaration.fallback with
    | some choices, none => .literal (literalValues heap choices)
    | _, _ => plain
  match declaration.mode with
  | .optional => return boundsOf heap field (.optional type) (some .null)
  | .required => return boundsOf heap field type none
  | .defaulted =>
      if isRecord (heap.look field.sample) then return boundsOf heap field type none
      else
        let default ← field.type.standIn heap field.sample
        return boundsOf heap field type (some default)

/-- The model of a schema. The fuel bounds the number of schemas on the way. -/
def modelTo (world : World) : Nat → SchemaId → Build ModelType
  | 0, _ => throw .tooDeep
  | fuel + 1, id => do
      let schema := world.schema id
      match (← get).find? id with
      | some (some _) => return .model id
      | some none => do
          Run.debug s!"Cyclic reference to '{schema.name}' mapped to dict"
          return .mapping (.named "str") .any
      | none => do
          modify fun table => table ++ [(id, none)]
          let compiled ← schema.demandCompiled
          let fields ← compiled.fields.mapM (fieldWith world.heap (modelTo world fuel))
          modify (ModelTable.finish id ⟨nameFor schema.name, fields⟩)
          return .model id

/-- The models of a schema and of all that it refers to. -/
def generate (world : World) (schema : SchemaId) : Run (ModelType × ModelTable) :=
  (modelTo world (world.schemas.size + 1) schema).run []

end Model

end Exemplar
