import Exemplar.Configuration
import Exemplar.Catalogue

/-!
Schemas and the world they live in. A schema is known by its number, and so are configurations and
catalogues; the root schema has number zero, no fields, and is never compiled.
-/

namespace Exemplar

abbrev SchemaId := Nat
abbrev ConfigurationId := Nat

/-- A compiled field. -/
structure Field where
  name : String
  declaration : Declaration
  sample : Value
  type : ValueType
  checks : List Check

namespace Field

/-- Resolves the type for a sample and compiles the checks. -/
def compile (catalogue : Catalogue) (heap : Heap) (name : String) (declaration : Declaration)
    (sample : Value) : Run Field := do
  let type ← catalogue.typeFor heap sample
  let checks ← Check.compile heap sample declaration type.measure
  return ⟨name, declaration, sample, type, checks⟩

/-- Runs checks up to the first that does not pass. -/
def firstFailureOf (name : String) (heap : Heap) (value : Value) : List Check → Run Verdict
  | [] => return .pass
  | check :: rest => do
      match ← check.apply name heap value with
      | .pass => firstFailureOf name heap value rest
      | verdict => return verdict

def firstFailure (field : Field) (heap : Heap) (value : Value) : Run Verdict :=
  firstFailureOf field.name heap value field.checks

/-- Moves the failure of a verdict; an answer that is no failure cannot be moved. -/
def locate (heap : Heap) (path : String) : Verdict → Run (Option Failure)
  | .pass => return none
  | .failure fail => return some (fail.movedTo path)
  | .other value => throw (.noAttribute (heap.qualifiedName value) "with_path")

/-- Runs checks to the end and gathers the failures, located at the field's name. -/
def failuresOf (name : String) (heap : Heap) (value : Value) : List Check → Run (List Failure)
  | [] => return []
  | check :: rest => do
      let verdict ← check.apply name heap value
      let fail ← locate heap name verdict
      let others ← failuresOf name heap value rest
      return fail.toList ++ others

def failures (field : Field) (heap : Heap) (value : Value) : Run (List Failure) :=
  failuresOf field.name heap value field.checks

def literal (field : Field) : String :=
  s!"Field({Text.quoted field.name}, type={Text.quoted field.type.name}, " ++
    s!"checks={field.checks.length})"

end Field

/-- What compilation leaves behind: the fields, the places they have under their names, the catalogue
that they were compiled with, and the sample, which is a record of the schema unless the
configuration's hook made something else of it. -/
structure Compiled where
  fields : List Field
  index : Named Nat
  catalogue : CatalogueId
  sample : Value

namespace Compiled

/-- The place of each field, under its name. -/
def places (fields : List Field) : Named Nat :=
  Named.merge [] (fields.zipIdx.map fun (field, place) => (field.name, place))

abbrev of (fields : List Field) (catalogue : CatalogueId) (sample : Value) : Compiled :=
  ⟨fields, places fields, catalogue, sample⟩

/-- The place that the index has for a name. -/
def place? (compiled : Compiled) (name : String) : Option Nat := Named.get? name compiled.index

/-- The field at the place that the index has for a name. -/
def field (compiled : Compiled) (name : String) : Except Fault Field :=
  match compiled.place? name with
  | none => .error (.missingKey s!"Unknown field '{name}'")
  | some place =>
      match compiled.fields[place]? with
      | some field => .ok field
      | none => .error .outOfRange

/-- Puts a field at the place that the index has for its name. -/
def replace (compiled : Compiled) (field : Field) : Compiled :=
  match compiled.place? field.name with
  | some place => { compiled with fields := compiled.fields.set place field }
  | none => compiled

end Compiled

structure Schema where
  recordClass : RecordClass
  /-- The declarations of its own body. -/
  body : List (String × Declaration)
  /-- All declarations, inherited ones included, in the order of fields. -/
  declarations : List (String × Declaration)
  /-- The linear order of the schema and those it extends, the nearest first. -/
  ancestry : List SchemaId
  config : Option ConfigurationId
  compiled : Option Compiled

namespace Schema

def rootClass : RecordClass := ⟨0, "Schema", [0]⟩

def root : Schema := ⟨rootClass, [], [], [0], none, none⟩

def name (schema : Schema) : String := schema.recordClass.name

def demandCompiled (schema : Schema) : Except Fault Compiled :=
  match schema.compiled with
  | some compiled => .ok compiled
  | none => .error (.notCompiled (Text.quoted schema.name))

end Schema

structure World where
  heap : Heap
  schemas : Array Schema
  configs : Array Configuration
  catalogues : Array Catalogue
  /-- The configuration in force where no other is named or bound. -/
  default : ConfigurationId

namespace World

def schema (world : World) (id : SchemaId) : Schema := world.schemas[id]?.getD Schema.root

def config (world : World) (id : ConfigurationId) : Configuration :=
  world.configs[id]?.getD ⟨true, .log, .identity, .identity, 0⟩

def catalogue (world : World) (id : CatalogueId) : Catalogue := world.catalogues[id]?.getD []

/-- The configuration of a run: the one it names, else the one bound to the schema, else the default
one. -/
def governing (world : World) (schema : Schema) (named : Option ConfigurationId) :
    ConfigurationId :=
  match named with
  | some config => config
  | none => schema.config.getD world.default

/-- The compiled form of the schema that a value is a record of. -/
def compiledOf (world : World) (value : Value) : Except Fault Compiled :=
  match world.heap.look value with
  | .record recordClass _ => (world.schema recordClass.number).demandCompiled
  | _ =>
      match world.heap.literal value with
      | .ok literal => .error (.notCompiled literal)
      | .error fault => .error fault

end World

end Exemplar
