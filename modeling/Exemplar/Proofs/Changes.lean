import Mathlib.Data.List.Nodup
import Exemplar.Proofs.Places
import Exemplar.Proofs.Repointing

/-!
What a change does to schemas: nothing, or it defines one, or it puts another field in the place of
one that a schema has. Whatever is done, every schema but the root is compiled to fields for its
declarations in their order, and its index says where each of them stands.
-/

namespace Exemplar

namespace Schema

/-- What a schema is apart from what it has been compiled to. -/
def outline (schema : Schema) : Schema := { schema with compiled := none }

end Schema

/-- What a compiled field holds of the body that it was declared in. -/
def Field.entry (field : Field) : String × Declaration := (field.name, field.declaration)

section Looking

variable {world other : World} {id key : SchemaId} {made : Field} {compiled : Compiled}
  {schema : Schema}

theorem World.schema_congr (same : world.schemas = other.schemas) :
    world.schema id = other.schema id := by
  simp only [World.schema, same]

/-- Only what has been defined is compiled. -/
theorem World.lt_size_of_compiled (known : (world.schema id).compiled = some compiled) :
    id < world.schemas.size := by
  rcases Nat.lt_or_ge id world.schemas.size with inside | beyond
  · exact inside
  · have outside : world.schemas[id]? = none := Array.getElem?_eq_none beyond
    simp [World.schema, outside, Schema.root] at known

theorem World.schema_enlarge {heap : Heap} : (world.enlarge schema heap).schema id =
    if id = world.schemas.size then schema else world.schema id := by
  simp only [World.schema, World.enlarge, Array.getElem?_push]
  split <;> rfl

theorem World.schema_exchange (known : (world.schema key).compiled = some compiled) :
    (world.exchange key compiled made).schema id =
      if id = key then { world.schema key with compiled := some (compiled.replace made) }
      else world.schema id := by
  have inside := World.lt_size_of_compiled known
  split
  next same =>
    subst same
    simp [World.schema, World.exchange, inside, Array.getElem_modify_self]
  next differs =>
    simp [World.schema, World.exchange, Array.getElem?_modify, Ne.symm differs]

theorem World.outline_exchange (known : (world.schema key).compiled = some compiled) :
    ((world.exchange key compiled made).schema id).outline = (world.schema id).outline := by
  rw [schema_exchange known]
  split
  next same =>
    subst same
    rfl
  next => rfl

end Looking

namespace Session

open Act

/-- The bases of the schema that the change defines. -/
def Change.bases? : Change → Option (List SchemaId)
  | .define _ bases _ _ => some bases
  | .defineFrom .. => some [0]
  | _ => none

/-- The change compiles a schema's field of that name: it defines the schema, or points the field at
another sample that it compiles for. -/
def Change.Compiles (change : Change) (session : Session) (id : SchemaId) (name : String) : Prop :=
  match change with
  | .define .. | .defineFrom .. => id = session.world.schemas.size
  | .repoint schema field value =>
      id = schema ∧ name = field ∧
        ∃ made trace, (session.world.recompile schema field value).Yields session.trace made trace
  | _ => False

/-- What a change can do to schemas. -/
inductive Change.Does (change : Change) (before : Session) (after : World) : Prop
  | nothing : after.schemas = before.world.schemas →
      (∀ id < before.world.schemas.size, ∀ name, ¬ change.Compiles before id name) →
      Does change before after
  | defines {name : String} {bases : List SchemaId} {entries : List (String × Entry)}
      {config : Option ConfigurationId} {schema : Schema} {heap : Heap} :
      change.bases? = some bases →
      before.world.Defines name bases entries config before.trace schema heap →
      after = before.world.enlarge schema heap →
      Does change before after
  | exchanges {id : SchemaId} {name : String} {value : Value} {compiled : Compiled} {field : Field}
      {trace : Trace} : change = .repoint id name value →
      (before.world.recompile id name value).Yields before.trace (compiled, field) trace →
      after.schemas = (before.world.exchange id compiled field).schemas →
      Does change before after

section Steps

variable {before after : Session} {change : Change} {id : SchemaId}

theorem compiles_of_bases {bases : List SchemaId} {name : String}
    (based : change.bases? = some bases) :
    change.Compiles before id name ↔ id = before.world.schemas.size := by
  cases change <;> first | exact Iff.rfl | cases based

theorem does_of_define {name : String} {bases : List SchemaId} {entries : List (String × Entry)}
    {config : Option ConfigurationId} {result : Except Fault SchemaId}
    (based : change.bases? = some bases)
    (ended : (defineSchema name bases entries config).Ends before result after) :
    change.Does before after.world := by
  rcases defineSchema_ends ended with ⟨_, _, same⟩ | ⟨schema, heap, _, defines, grown⟩
  · refine .nothing (by rw [same]) fun id old name compiles => ?_
    exact Nat.ne_of_lt old ((compiles_of_bases based).mp compiles)
  · exact .defines based defines grown

theorem does_of_ends {result : Except Fault Unit} (ended : change.act.Ends before result after) :
    change.Does before after.world := by
  have idle (leaves : change.act.Leaves World.schemas)
      (never : ∀ id name, ¬ change.Compiles before id name) : change.Does before after.world :=
    .nothing (leaves _ _ _ ended) fun id _ => never id
  cases change with
  | place value => exact idle (place_leaves fun _ _ => rfl).forget fun _ _ => not_false
  | mutate target key value => exact idle (mutate_leaves fun _ _ => rfl) fun _ _ => not_false
  | newCatalogue build =>
      exact idle (newCatalogue_leaves fun _ _ => rfl).forget fun _ _ => not_false
  | newConfiguration config =>
      exact idle (newConfiguration_leaves fun _ _ => rfl).forget fun _ _ => not_false
  | derive config changes =>
      exact idle (derive_leaves (fun _ _ => rfl) fun _ _ => rfl).forget fun _ _ => not_false
  | setDefault config => exact idle (setDefault_leaves fun _ _ => rfl).forget fun _ _ => not_false
  | changeDefault changes =>
      exact idle (changeDefault_leaves (fun _ _ => rfl) (fun _ _ => rfl) fun _ _ => rfl)
        fun _ _ => not_false
  | register config type => exact idle (register_leaves fun _ _ => rfl) fun _ _ => not_false
  | run action => exact idle leaves_ofRun fun _ _ => not_false
  | define name bases entries config =>
      obtain ⟨_, defined⟩ := ends_of_forget ended
      exact does_of_define rfl defined
  | defineFrom name entries config =>
      obtain ⟨_, defined⟩ := ends_of_forget ended
      rcases defineFrom_ends defined with rfl | defined
      · exact .nothing rfl fun id old name compiles => Nat.ne_of_lt old compiles
      · exact does_of_define rfl defined
  | repoint key name value =>
      cases result with
      | ok done =>
          obtain ⟨compiled, field, trace, _, made, _, rfl⟩ := repoint_succeeds ended
          exact .exchanges rfl made World.assign_schemas
      | error fault =>
          rcases repoint_fails ended with ⟨trace, broke, rfl⟩ |
            ⟨compiled, field, trace, made, _, rfl⟩
          · refine .nothing rfl fun id _ name compiles => ?_
            obtain ⟨_, _, made, last, yielded⟩ := compiles
            exact yielded.not_breaks broke
          · exact .exchanges rfl made rfl

theorem outline_of_does {change : Change} {before after : Session}
    (does : change.Does before after.world) :
    before.world.schemas.size ≤ after.world.schemas.size ∧
      ∀ id < before.world.schemas.size,
        (after.world.schema id).outline = (before.world.schema id).outline := by
  cases does with
  | nothing same _ =>
      refine ⟨by rw [same], fun id _ => ?_⟩
      rw [World.schema_congr same]
  | defines _ _ grown =>
      refine ⟨by simp [grown, World.enlarge], fun id old => ?_⟩
      rw [grown, World.schema_enlarge, if_neg (Nat.ne_of_lt old)]
  | exchanges _ made same =>
      obtain ⟨_, known, _⟩ := recompile_yields.mp made
      refine ⟨by simp [same, World.exchange], fun id _ => ?_⟩
      rw [World.schema_congr same, World.outline_exchange known]

end Steps

end Session

section Compiling

variable {catalogue : Catalogue} {heap : Heap} {name : String} {declaration : Declaration}
  {sample : Value} {compiled : Compiled} {old field : Field} {fields : List Field}
  {declarations : List (String × Declaration)} {before after : Trace}

theorem Field.of_compile
    (made : (Field.compile catalogue heap name declaration sample).Yields before field after) :
    field.entry = (name, declaration) ∧ field.sample = sample := by
  simp only [Field.compile, Run.yields_bind, Run.yields_pure] at made
  obtain ⟨_, _, _, _, _, _, rfl, _⟩ := made
  exact ⟨rfl, rfl⟩

theorem Session.fields_of_compileFields
    (ran : (Session.compileFields catalogue heap declarations).Yields before fields after) :
    fields.map (fun field => (field.entry, field.sample)) =
      declarations.map fun entry => (entry, entry.2.sample) := by
  induction declarations generalizing before fields after with
  | nil =>
      obtain ⟨rfl, _⟩ := Run.yields_pure.mp ran
      rfl
  | cons entry rest ih =>
      simp only [Session.compileFields, Run.yields_bind, Run.yields_pure] at ran
      obtain ⟨field, _, made, others, _, compiled, rfl, _⟩ := ran
      obtain ⟨entered, sampled⟩ := Field.of_compile made
      rw [List.map_cons, List.map_cons, entered, sampled, ih compiled]

theorem Session.entries_of_compileFields
    (ran : (Session.compileFields catalogue heap declarations).Yields before fields after) :
    fields.map Field.entry = declarations := by
  have entries := congrArg (List.map Prod.fst) (Session.fields_of_compileFields ran)
  simpa [Function.comp_def] using entries

/-- A field that is put in the place of another holds the same of the body. -/
theorem Compiled.Indexed.entries_replace (indexed : compiled.Indexed)
    (member : old ∈ compiled.fields) (same : field.entry = old.entry) :
    (compiled.replace field).fields.map Field.entry = compiled.fields.map Field.entry := by
  rw [indexed.fields_replace, List.map_map]
  refine List.map_congr_left fun existing within => ?_
  by_cases named : existing.name = field.name
  · have names : existing.name = old.name := named.trans (congrArg Prod.fst same)
    obtain rfl : existing = old := List.inj_on_of_nodup_map indexed.distinct within member names
    simp [named, same]
  · simp [named]

end Compiling

theorem Session.nodup_inherited (world : World) (bases : List SchemaId) :
    (Named.names (Session.inherited world bases)).Nodup := by
  unfold Session.inherited
  generalize bases.reverse = order
  have all (merged : Named Declaration) (distinct : (Named.names merged).Nodup) :
      (Named.names (order.foldl
        (fun merged base => Named.merge merged (world.schema base).declarations) merged)).Nodup := by
    induction order generalizing merged with
    | nil => exact distinct
    | cons base rest ih => exact ih _ (Named.nodup_merge distinct)
  exact all [] List.nodup_nil

/-- Every schema but the root is compiled, to fields for its declarations in their order, no two of
them have one name, and its index has the places that they stand at. -/
structure World.Faithful (world : World) : Prop where
  distinct : ∀ id, (Named.names (world.schema id).declarations).Nodup
  compiled : ∀ id, 0 < id → id < world.schemas.size → (world.schema id).compiled.isSome
  entries : ∀ id compiled, (world.schema id).compiled = some compiled →
    compiled.fields.map Field.entry = (world.schema id).declarations
  index : ∀ id compiled, (world.schema id).compiled = some compiled →
    compiled.index = Compiled.places compiled.fields

namespace World

variable {world other : World} {name : String} {bases : List SchemaId} {id : SchemaId}

theorem Faithful.congr (faithful : world.Faithful) (same : other.schemas = world.schemas) :
    other.Faithful := by
  have equal (id : SchemaId) : other.schema id = world.schema id := by
    simp only [World.schema, same]
  refine ⟨fun id => ?_, fun id above inside => ?_, fun id compiled known => ?_,
    fun id compiled known => ?_⟩
  · exact equal id ▸ faithful.distinct id
  · exact equal id ▸ faithful.compiled id above (same ▸ inside)
  · rw [equal id] at known ⊢
    exact faithful.entries id compiled known
  · exact faithful.index id compiled (equal id ▸ known)

theorem Faithful.names {compiled : Compiled} (faithful : world.Faithful)
    (known : (world.schema id).compiled = some compiled) :
    compiled.fields.map (·.name) = Named.names (world.schema id).declarations := by
  rw [← faithful.entries id compiled known, Named.names, List.map_map]
  rfl

theorem Faithful.indexed {compiled : Compiled} (faithful : world.Faithful)
    (known : (world.schema id).compiled = some compiled) : compiled.Indexed :=
  ⟨faithful.names known ▸ faithful.distinct id, faithful.index id compiled known⟩

theorem Faithful.define {entries : List (String × Entry)} {config : Option ConfigurationId}
    {before : Trace} {schema : Schema} {heap : Heap} (faithful : world.Faithful)
    (defines : world.Defines name bases entries config before schema heap) :
    (world.enlarge schema heap).Faithful := by
  obtain ⟨made, known, compiles⟩ := defines.compiled
  refine ⟨fun id => ?_, fun id above inside => ?_, fun id compiled found => ?_,
    fun id compiled found => ?_⟩
  · rw [schema_enlarge]
    split
    next =>
      rw [defines.declarations]
      exact Named.nodup_merge (Session.nodup_inherited world bases)
    next => exact faithful.distinct id
  · rw [schema_enlarge]
    split
    next => simp [known]
    next old =>
      refine faithful.compiled id above ?_
      have inside : id < world.schemas.size + 1 := by simpa [World.enlarge] using inside
      exact Nat.lt_of_le_of_ne (Nat.le_of_lt_succ inside) old
  · rw [schema_enlarge] at found ⊢
    split at found
    next last =>
      cases known.symm.trans found
      obtain ⟨_, ran⟩ := compiles.fields
      rw [if_pos last]
      exact Session.entries_of_compileFields ran
    next old =>
      rw [if_neg old]
      exact faithful.entries id compiled found
  · rw [schema_enlarge] at found
    split at found
    next =>
      cases known.symm.trans found
      exact compiles.index
    next => exact faithful.index id compiled found

theorem Faithful.exchange {key : SchemaId} {value : Value} {compiled : Compiled} {field : Field}
    {before after : Trace} (faithful : world.Faithful)
    (made : (world.recompile key name value).Yields before (compiled, field) after) :
    (world.exchange key compiled field).Faithful := by
  obtain ⟨old, known, found, compiles⟩ := recompile_yields.mp made
  have indexed := faithful.indexed known
  obtain ⟨member, named⟩ := indexed.field_eq_ok_iff.mp found
  have same : field.entry = old.entry := by
    rw [(Field.of_compile compiles).1, ← named]
    rfl
  refine ⟨fun id => ?_, fun id above inside => ?_, fun id other found => ?_,
    fun id other found => ?_⟩
  · rw [schema_exchange known]
    split
    next => exact faithful.distinct key
    next => exact faithful.distinct id
  · rw [schema_exchange known]
    split
    next => rfl
    next => exact faithful.compiled id above (by simpa [World.exchange] using inside)
  · rw [schema_exchange known] at found ⊢
    split at found
    next last =>
      cases found
      rw [if_pos last, indexed.entries_replace member same]
      exact faithful.entries key compiled known
    next differs =>
      rw [if_neg differs]
      exact faithful.entries id other found
  · rw [schema_exchange known] at found
    split at found
    next =>
      cases found
      exact indexed.replace.index
    next => exact faithful.index id other found

end World

namespace Session

theorem schema_start {id : SchemaId} : (after []).world.schema id = Schema.root := by
  cases id with
  | zero => rfl
  | succ id => rfl

theorem faithful_after (changes : List Change) : (after changes).world.Faithful := by
  induction changes with
  | nil =>
      have bare {id : SchemaId} {compiled : Compiled}
          (known : ((after []).world.schema id).compiled = some compiled) : False := by
        rw [schema_start] at known
        cases known
      refine ⟨fun id => ?_, fun id above inside => ?_, fun id compiled known => (bare known).elim,
        fun id compiled known => (bare known).elim⟩
      · rw [schema_start]
        exact List.nodup_nil
      · have only : id < 1 := inside
        omega
  | cons change earlier ih =>
      cases does_of_ends (ends_act change earlier) with
      | nothing same _ => exact ih.congr same
      | defines _ defines grown => exact grown ▸ ih.define defines
      | exchanges _ made same => exact (ih.exchange made).congr same

end Session

end Exemplar
