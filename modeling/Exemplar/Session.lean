import Exemplar.Ancestry
import Exemplar.Validation

/-!
What changes the world: new schemas, configurations and catalogues, references of a schema to
itself, and changes to stored objects. A change that breaks down half way keeps what was done
before.
-/

namespace Exemplar

structure Session where
  world : World
  trace : Trace

abbrev Act := ExceptT Fault (StateM Session)

instance : MonadLift (Except Fault) Act := ⟨fun result => ExceptT.mk (pure result)⟩

namespace Act

def current : Act World := return (← get).world

def install (world : World) : Act Unit := modify fun session => { session with world }

/-- A computation on the world as it stands. -/
def ofRun {α : Type} (action : World → Run α) : Act α := ExceptT.mk fun session =>
  let (result, trace) := (action session.world).run session.trace
  (result, { session with trace })

/-- Gives every part of a value a cell of its own. -/
def place (value : Value) : Act Value := do
  let world ← current
  let (value, heap) := world.heap.place value
  install { world with heap }
  return value

def placeOption : Option Value → Act (Option Value)
  | none => return none
  | some value => return some (← place value)

def placeAll : List Value → Act (List Value)
  | [] => return []
  | value :: rest => return (← place value) :: (← placeAll rest)

/-- The declaration with its sample, its fallback and its other values stored as objects. -/
def placeDeclaration (declaration : Declaration) : Act Declaration := do
  let sample ← place declaration.sample
  let minimum ← placeOption declaration.minimum
  let maximum ← placeOption declaration.maximum
  let allowed ← match declaration.allowed with
    | none => pure none
    | some choices => pure (some (← placeAll choices))
  let fallback ← placeOption declaration.fallback
  return { declaration with sample, minimum, maximum, allowed, fallback }

end Act

/-- An attribute of a schema's body: a declaration, or a plain value. -/
inductive Entry where
  | declared (declaration : Declaration)
  | plain (value : Value)

namespace Session

open Act

/-- The declarations of the bases, the first base having the last word; a name keeps the place at
which it was declared first. -/
def inherited (world : World) (bases : List SchemaId) : List (String × Declaration) :=
  bases.reverse.foldl
    (fun merged base => Named.merge merged (world.schema base).declarations) []

/-- The declarations of a body; names with a leading underscore are not for fields. -/
def bodyOf : List (String × Entry) → Except Fault (List (String × Declaration))
  | [] => .ok []
  | (_, .plain _) :: rest => bodyOf rest
  | (name, .declared declaration) :: rest =>
      if name.toList.head? = some '_' then .error (.reservedName name)
      else
        match bodyOf rest with
        | .ok others => .ok ((name, declaration) :: others)
        | .error fault => .error fault

/-- The configuration bound to the first base that has one. -/
def inheritedConfiguration (world : World) : List SchemaId → Option ConfigurationId
  | [] => none
  | base :: rest =>
      match (world.schema base).config with
      | some config => some config
      | none => inheritedConfiguration world rest

def compileFields (catalogue : Catalogue) (heap : Heap) :
    List (String × Declaration) → Run (List Field)
  | [] => return []
  | (name, declaration) :: rest => do
      let field ← Field.compile catalogue heap name declaration declaration.sample
      let others ← compileFields catalogue heap rest
      return field :: others

/-- Compiles the fields and builds the sample, which goes through the configuration's hook. -/
def compile (recordClass : RecordClass) (declarations : List (String × Declaration))
    (config : Option ConfigurationId) : Act Compiled := do
  let world ← current
  let config := world.config (config.getD world.default)
  let fields ← ofRun fun world =>
    compileFields (world.catalogue config.catalogue) world.heap declarations
  let values := declarations.map fun entry => (entry.1, entry.2.sample)
  let sample ← ofRun fun world => config.finisher.finish world.heap (.record recordClass values)
  let stored ← place sample
  ofRun fun _ => Run.debug s!"Compiled schema '{recordClass.name}' with {fields.length} fields"
  return .of fields config.catalogue stored

/-- Defines a schema that extends the given ones and answers its number. -/
def defineSchema (name : String) (bases : List SchemaId) (entries : List (String × Entry))
    (config : Option ConfigurationId) : Act SchemaId := do
  let world ← current
  let body ← bodyOf entries
  let bound := config.or (inheritedConfiguration world bases)
  let above ← Ancestry.ofBases (fun id => (world.schema id).name)
    (fun id => (world.schema id).ancestry) bases
  let number := world.schemas.size
  let ancestry := number :: above
  let recordClass : RecordClass := ⟨number, name, ancestry⟩
  let declarations := Named.merge (inherited world bases) body
  let compiled ← compile recordClass declarations bound
  modify fun session =>
    { session with world := { session.world with
        schemas := session.world.schemas.push
          ⟨recordClass, body, declarations, ancestry, bound, some compiled⟩ } }
  return number

/-- Defines a schema from declarations alone. -/
def defineFrom (name : String) (entries : List (String × Entry)) (config : Option ConfigurationId) :
    Act SchemaId := do
  let world ← current
  for entry in entries do
    match entry.2 with
    | .declared _ => pure ()
    | .plain value => throw (.notDeclaration entry.1 (world.heap.className value))
  defineSchema name [0] entries config

def setCompiled (id : SchemaId) (compiled : Compiled) : Act Unit :=
  modify fun session =>
    { session with world := { session.world with
        schemas := session.world.schemas.modify id fun schema =>
          { schema with compiled := some compiled } } }

def setCell (index : Nat) (value : Value) : Act Unit :=
  modify fun session =>
    { session with world := { session.world with heap := session.world.heap.write index value } }

/-- Why a value that is no stored record does not take an attribute. Big integers and modes take all
that do not belong to their classes, and nothing ever reads them. -/
def refusal? (shape : Value) (name : String) : Option Fault :=
  match shape with
  | .bigInteger _ =>
      if name ∈ ["real", "imag", "numerator", "denominator"] then some (.unwritable name) else none
  | .mode _ => if name ∈ ["name", "value"] then some (.unsettable name) else none
  | .failure _ => some (.immutable "Fail")
  | shape => some (.noAttribute shape.qualifiedName name)

/-- Sets a field of the record that a value refers to; what else takes attributes is left as it is.
-/
def setAttribute (target : Value) (name : String) (value : Value) : Act Unit := do
  let world ← current
  match target, world.heap.look target with
  | .ref index, .record recordClass fields =>
      setCell index (.record recordClass (Named.set name value fields))
  | _, shape =>
      match refusal? shape name with
      | some fault => throw fault
      | none => return ()

/-- Points a field of the schema's sample at a value, which must be a stored object: the field is
compiled anew for it and takes the place of the old one, and then the sample is changed. -/
def repoint (id : SchemaId) (name : String) (value : Value) : Act Unit := do
  let world ← current
  let schema := world.schema id
  let compiled ← schema.demandCompiled
  let old ← compiled.field name
  let field ← ofRun fun world =>
    Field.compile (world.catalogue compiled.catalogue) world.heap name old.declaration value
  setCompiled id (compiled.replace field)
  setAttribute compiled.sample name value
  ofRun fun _ => Run.debug
    s!"Patched field '{name}' of schema '{schema.name}' to type '{field.type.name}'"

/-- Changes a stored object: a field of a record, an entry of a mapping, one more member of a set or
one more element of a list. -/
def mutate (target : Value) (key : Option Value) (value : Value) : Act Unit := do
  let world ← current
  match target, world.heap.look target with
  | .ref index, .mapping entries =>
      let key := Value.orNull key
      let _ ← world.heap.hash? key
      setCell index (.mapping (world.heap.setEntry key value entries))
  | .ref index, .set members =>
      let members ← world.heap.addMember members value
      setCell index (.set members)
  | .ref index, .list elements => setCell index (.list (elements ++ [value]))
  | target, _ =>
      match key with
      | some (.text name) => setAttribute target name value
      | _ => setAttribute target "" value

def newCatalogue (build : Run Catalogue) : Act CatalogueId := do
  let catalogue ← ofRun fun _ => build
  let world ← current
  install { world with catalogues := world.catalogues.push catalogue }
  return world.catalogues.size

def newConfiguration (config : Configuration) : Act ConfigurationId := do
  let world ← current
  install { world with configs := world.configs.push config }
  return world.configs.size

/-- The changes that make one configuration into another; without a catalogue of its own the copy
gets a copy of the catalogue. -/
structure Changes where
  lenient : Option Bool := none
  sink : Option WarningSink := none
  finisher : Option Finisher := none
  keys : Option KeyStrategy := none
  catalogue : Option CatalogueId := none

/-- A configuration from the settings that are chosen; all others are as at the start, and without a
chosen catalogue it gets one of the built-in types for itself. -/
def configure (chosen : Changes) : Act ConfigurationId := do
  let catalogue ← match chosen.catalogue with
    | some catalogue => pure catalogue
    | none => newCatalogue Catalogue.default
  newConfiguration
    { lenient := chosen.lenient.getD true
      sink := chosen.sink.getD .log
      finisher := chosen.finisher.getD .identity
      keys := chosen.keys.getD .identity
      catalogue }

def derive (id : ConfigurationId) (changes : Changes) : Act ConfigurationId := do
  let world ← current
  let config := world.config id
  let copied ← newCatalogue (world.catalogue config.catalogue).copy
  newConfiguration
    { lenient := changes.lenient.getD config.lenient
      sink := changes.sink.getD config.sink
      finisher := changes.finisher.getD config.finisher
      keys := changes.keys.getD config.keys
      catalogue := changes.catalogue.getD copied }

/-- Installs a default configuration and answers the one before. -/
def setDefault (id : ConfigurationId) : Act ConfigurationId := do
  let world ← current
  install { world with default := id }
  return world.default

def changeDefault (changes : Changes) : Act Unit := do
  let id ← derive (← current).default changes
  let _ ← setDefault id

/-- Registers a type with the catalogue of a configuration. -/
def register (id : ConfigurationId) (type : ValueType) : Act Unit := do
  let world ← current
  let catalogue := (world.config id).catalogue
  let types ← ofRun fun world => (world.catalogue catalogue).add type
  install { world with catalogues := world.catalogues.setIfInBounds catalogue types }

/-- The world before anything is defined: the root schema and one configuration with the built-in
types. -/
def start : Session :=
  { world :=
      { heap := .empty
        schemas := #[.root]
        configs := #[{ catalogue := 0 }]
        catalogues := #[Catalogue.builtIn]
        default := 0 }
    trace := [] }

end Session

end Exemplar
