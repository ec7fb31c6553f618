import Exemplar.Proofs.Chronicle
import Exemplar.Proofs.Inheritance
import Exemplar.Proofs.Storage

/-!
Compiled schemas in step with their samples. The fields of a schema, the index that they are found
by and the sample, which is a stored record that other schemas may refer to, are changed in part by
one repointing after the other, some of which break down; they keep telling the same of the schema.
-/

namespace Exemplar

/-- A plain value or a reference: nothing of it is left to be stored. -/
def Value.Stored : Value → Prop
  | .list _ | .tuple _ | .set _ | .frozenSet _ | .deque _ | .mapping _ | .record .. | .copy _ =>
      False
  | _ => True

/-- The hook answers with the record that it is given. -/
def Finisher.Keeps (finisher : Finisher) : Prop :=
  ∀ heap record before made after,
    (finisher.finish heap record).Yields before made after → made = record

/-- What a compiled field stands for in the sample of its schema. -/
def Field.sampled (field : Field) : String × Value := (field.name, field.sample)

namespace Heap

variable {heap : Heap} {value : Value} {fields : List (String × Value)}

theorem place_of_stored (stored : value.Stored) : heap.place value = (value, heap) := by
  cases value <;> first | rfl | exact absurd stored not_false

theorem placeFields_of_stored (stored : ∀ field ∈ fields, field.2.Stored) :
    heap.placeFields fields = (fields, heap) := by
  induction fields with
  | nil => rfl
  | cons field rest ih =>
      have first := stored field (by simp)
      have others := ih fun other member => stored other (List.mem_cons_of_mem field member)
      simp only [placeFields, place_of_stored first, others]

/-- A record of stored values takes one cell. -/
theorem place_record {recordClass : RecordClass} (stored : ∀ field ∈ fields, field.2.Stored) :
    heap.place (.record recordClass fields) = heap.store (.record recordClass fields) := by
  rw [place, placeFields_of_stored stored]

end Heap

namespace Named

variable {α : Type} {base own entries : Named α} {name : String} {value : α} {entry : String × α}

theorem mem_set (member : entry ∈ set name value entries) :
    entry = (name, value) ∨ entry ∈ entries := by
  induction entries with
  | nil => exact .inl (List.mem_singleton.mp member)
  | cons first rest ih =>
      simp only [set] at member
      split at member
      next same =>
        rcases List.mem_cons.mp member with rfl | later
        · exact .inl (by rw [same])
        · exact .inr (List.mem_cons_of_mem first later)
      next =>
        rcases List.mem_cons.mp member with rfl | later
        · exact .inr (by simp)
        · exact (ih later).imp_right (List.mem_cons_of_mem first)

theorem mem_merge (member : entry ∈ merge base own) : entry ∈ base ∨ entry ∈ own := by
  induction own using List.reverseRecOn with
  | nil => exact .inl member
  | append_singleton rest last ih =>
      rw [merge_append] at member
      rcases mem_set member with rfl | earlier
      · exact .inr (by simp)
      · exact (ih earlier).imp_right (List.mem_append_left _)

end Named

section Compiling

variable {catalogue : Catalogue} {heap : Heap} {name : String} {declaration : Declaration}
  {sample : Value} {compiled : Compiled} {old field : Field} {fields : List Field}
  {declarations : List (String × Declaration)} {before after : Trace}

theorem Session.sampled_of_compileFields
    (ran : (Session.compileFields catalogue heap declarations).Yields before fields after) :
    fields.map Field.sampled = declarations.map fun entry => (entry.1, entry.2.sample) := by
  have samples := congrArg (List.map fun part => (part.1.1, part.2))
    (Session.fields_of_compileFields ran)
  simp only [List.map_map] at samples
  exact samples

/-- The sample of a schema takes the sample of the new field where the fields take the field. -/
theorem Compiled.Indexed.sampled_replace (indexed : compiled.Indexed)
    (member : old ∈ compiled.fields) (same : field.name = old.name) :
    (compiled.replace field).fields.map Field.sampled =
      Named.set field.name field.sample (compiled.fields.map Field.sampled) := by
  have distinct := indexed.distinct
  rw [indexed.fields_replace]
  generalize compiled.fields = fields at distinct member
  induction fields with
  | nil => cases member
  | cons first rest ih =>
      obtain ⟨apart, distinct⟩ := List.nodup_cons.mp distinct
      by_cases here : first.name = field.name
      · have others : ∀ other ∈ rest, other.name ≠ field.name := by
          intro other within again
          exact apart (List.mem_map.mpr ⟨other, within, again.trans here.symm⟩)
        have untouched :
            rest.map (fun old => if old.name = field.name then field else old) = rest :=
          (List.map_congr_left fun other within => if_neg (others other within)).trans
            (List.map_id rest)
        simp [here, untouched, Named.set, Field.sampled]
      · have later : old ∈ rest := by
          rcases List.mem_cons.mp member with rfl | later
          · exact absurd same.symm here
          · exact later
        rw [List.map_cons, List.map_cons, ih distinct later]
        simp [here, Named.set, Field.sampled]

theorem get?_sampled (distinct : (fields.map (·.name)).Nodup)
    (member : field ∈ fields) :
    Named.get? field.name (fields.map Field.sampled) = some field.sample := by
  have names : Named.names (fields.map Field.sampled) = fields.map (·.name) := by
    rw [Named.names, List.map_map]
    rfl
  exact Named.get?_of_mem (names ▸ distinct) (List.mem_map_of_mem member)

end Compiling

/-- The sample of what a schema is compiled to stands in this cell: a record of its fields'
samples. -/
structure Compiled.SampledIn (compiled : Compiled) (heap : Heap) (recordClass : RecordClass)
    (index : Nat) : Prop where
  inside : index < heap.cells.size
  sample : compiled.sample = .ref index
  record : heap.cell index = .record recordClass (compiled.fields.map Field.sampled)

namespace Compiled.SampledIn

variable {compiled : Compiled} {heap other : Heap} {recordClass : RecordClass} {index number : Nat}
  {old field : Field} {value : Value}

theorem grow (stands : compiled.SampledIn heap recordClass index) (grows : heap.Grows other) :
    compiled.SampledIn other recordClass index where
  inside := Nat.lt_of_lt_of_le stands.inside grows.size
  sample := stands.sample
  record := (grows.kept index stands.inside).trans stands.record

theorem write_of_ne (stands : compiled.SampledIn heap recordClass index)
    (differs : index ≠ number) :
    compiled.SampledIn (heap.write number value) recordClass index where
  inside := by simpa [Heap.write] using stands.inside
  sample := stands.sample
  record := (Heap.cell_write_of_ne differs).trans stands.record

/-- The field is exchanged, and so is what the record has under its name. -/
theorem replace (stands : compiled.SampledIn heap recordClass index)
    (indexed : compiled.Indexed) (member : old ∈ compiled.fields)
    (same : field.name = old.name) :
    (compiled.replace field).SampledIn (heap.write index (.record recordClass
      (Named.set field.name field.sample (compiled.fields.map Field.sampled)))) recordClass
      index where
  inside := by simpa [Heap.write] using stands.inside
  sample := Compiled.sample_replace.trans stands.sample
  record := by
    rw [Heap.cell_write_self stands.inside, indexed.sampled_replace member same]

end Compiled.SampledIn

namespace World

/-- The world with a field exchanged in a schema and in the record that is the schema's sample. -/
def put (world : World) (id : SchemaId) (compiled : Compiled) (field : Field) (index : Nat) :
    World :=
  { world.exchange id compiled field with
    heap := world.heap.write index (.record (world.schema id).recordClass
      (Named.set field.name field.sample (compiled.fields.map Field.sampled))) }

/-- The samples of the chosen schemas are records of their fields' samples, each in a cell of its
own; what schemas declare is stored. -/
structure Coherent (world : World) (chosen : SchemaId → Prop) : Prop where
  stored : ∀ id, ∀ entry ∈ (world.schema id).declarations, entry.2.sample.Stored
  sampled : ∀ id, chosen id → ∀ compiled, (world.schema id).compiled = some compiled →
    ∃ index, compiled.SampledIn world.heap (world.schema id).recordClass index
  apart : ∀ one other, chosen one → chosen other → ∀ left right,
    (world.schema one).compiled = some left → (world.schema other).compiled = some right →
    left.sample = right.sample → one = other

variable {world after : World} {chosen : SchemaId → Prop} {name : String}
  {bases : List SchemaId} {entries : List (String × Entry)} {config : Option ConfigurationId}
  {before last : Trace} {schema : Schema} {heap : Heap} {id : SchemaId} {compiled : Compiled}
  {field : Field} {index : Nat}

theorem put_schema : (world.put id compiled field index).schema =
    (world.exchange id compiled field).schema := rfl

/-- Nothing happens to schemas when more is stored. -/
theorem Coherent.grow (coherent : world.Coherent chosen) (same : after.schemas = world.schemas)
    (grows : world.heap.Grows after.heap) : after.Coherent chosen := by
  have equal (id : SchemaId) : after.schema id = world.schema id := schema_congr same
  refine ⟨fun id => ?_, fun id picked compiled known => ?_,
    fun one other picked taken left right known found => ?_⟩
  · rw [equal id]
    exact coherent.stored id
  · rw [equal id] at known ⊢
    obtain ⟨index, stands⟩ := coherent.sampled id picked compiled known
    exact ⟨index, stands.grow grows⟩
  · rw [equal one] at known
    rw [equal other] at found
    exact coherent.apart one other picked taken left right known found

theorem mem_inherited {entry : String × Declaration}
    (member : entry ∈ Session.inherited world bases) :
    ∃ base ∈ bases, entry ∈ (world.schema base).declarations := by
  unfold Session.inherited at member
  rw [List.foldl_reverse] at member
  induction bases with
  | nil => cases member
  | cons base rest ih =>
      rcases Named.mem_merge member with later | here
      · obtain ⟨other, based, within⟩ := ih later
        exact ⟨other, List.mem_cons_of_mem base based, within⟩
      · exact ⟨base, by simp, here⟩

theorem mem_of_bodyOf {body : List (String × Declaration)} {entry : String × Declaration}
    (read : Session.bodyOf entries = .ok body) (member : entry ∈ body) :
    (entry.1, .declared entry.2) ∈ entries := by
  induction entries generalizing body with
  | nil =>
      cases read
      cases member
  | cons first rest ih =>
      obtain ⟨key, content⟩ := first
      cases content with
      | plain value => exact List.mem_cons_of_mem _ (ih read member)
      | declared declaration =>
          simp only [Session.bodyOf] at read
          split at read
          next => cases read
          next =>
            split at read
            next others later =>
              cases read
              rcases List.mem_cons.mp member with rfl | within
              · simp
              · exact List.mem_cons_of_mem _ (ih later within)
            next => cases read

section Compiles

variable {recordClass : RecordClass} {declarations : List (String × Declaration)}
  {number : ConfigurationId}

theorem Compiles.grows
    (compiles : world.Compiles recordClass declarations number before compiled heap) :
    world.heap.Grows heap := by
  obtain ⟨_, made, _, _, placed⟩ := compiles.sample
  have grown := (Heap.Grows.refl world.heap).place made
  rw [placed] at grown
  exact grown

/-- With a hook that keeps records, the sample is a record of the fields' samples in a fresh
cell. -/
theorem Compiles.sampled
    (compiles : world.Compiles recordClass declarations number before compiled heap)
    (keeps : (world.config number).finisher.Keeps)
    (stored : ∀ entry ∈ declarations, entry.2.sample.Stored) :
    compiled.SampledIn heap recordClass world.heap.cells.size := by
  obtain ⟨_, made, _, finished, placed⟩ := compiles.sample
  obtain ⟨_, ran⟩ := compiles.fields
  have plain : ∀ field ∈ compiled.fields.map Field.sampled, field.2.Stored := by
    intro field member
    rw [Session.sampled_of_compileFields ran] at member
    obtain ⟨entry, declared, rfl⟩ := List.mem_map.mp member
    exact stored entry declared
  rw [keeps _ _ _ _ _ finished, ← Session.sampled_of_compileFields ran,
    Heap.place_record plain] at placed
  obtain ⟨sample, rfl⟩ := Prod.mk.inj placed
  exact ⟨by simp, sample.symm, Heap.cell_store_self⟩

end Compiles

theorem Coherent.stored_of_defines (coherent : world.Coherent chosen)
    (stored : ∀ key declaration, (key, .declared declaration) ∈ entries →
      declaration.sample.Stored)
    (defines : world.Defines name bases entries config before schema heap) :
    ∀ entry ∈ schema.declarations, entry.2.sample.Stored := by
  intro entry member
  rw [defines.declarations] at member
  rcases Named.mem_merge member with inherited | own
  · obtain ⟨base, _, within⟩ := mem_inherited inherited
    exact coherent.stored base entry within
  · exact stored entry.1 entry.2 (mem_of_bodyOf defines.body own)

/-- A schema whose declarations are stored, and whose hook keeps its sample as it is made, comes
with a sample in a fresh cell. -/
theorem Coherent.define (coherent : world.Coherent chosen)
    (stored : ∀ key declaration, (key, .declared declaration) ∈ entries →
      declaration.sample.Stored)
    (keeps : chosen world.schemas.size →
      (world.config (schema.config.getD world.default)).finisher.Keeps)
    (defines : world.Defines name bases entries config before schema heap) :
    (world.enlarge schema heap).Coherent chosen := by
  have declarations := coherent.stored_of_defines stored defines
  obtain ⟨made, declared, compiles⟩ := defines.compiled
  have fresh {id : SchemaId} {compiled : Compiled} (picked : chosen id)
      (anew : chosen world.schemas.size) (known : (world.schema id).compiled = some compiled) :
      compiled.sample ≠ made.sample := by
    obtain ⟨index, stands⟩ := coherent.sampled id picked compiled known
    rw [stands.sample, (compiles.sampled (keeps anew) declarations).sample]
    simpa using Nat.ne_of_lt stands.inside
  refine ⟨fun id => ?_, fun id picked compiled known => ?_,
    fun one other picked taken left right known found same => ?_⟩
  · rw [schema_enlarge]
    split
    next => exact declarations
    next => exact coherent.stored id
  · rw [schema_enlarge] at known ⊢
    split at known
    next last =>
      cases declared.symm.trans known
      rw [if_pos last]
      exact ⟨_, compiles.sampled (keeps (last ▸ picked)) declarations⟩
    next old =>
      rw [if_neg old]
      obtain ⟨index, stands⟩ := coherent.sampled id picked compiled known
      exact ⟨index, stands.grow compiles.grows⟩
  · rw [schema_enlarge] at known found
    split at known
    next last =>
      cases declared.symm.trans known
      split at found
      next also => exact last.trans also.symm
      next => exact absurd same.symm (fresh taken (last ▸ picked) found)
    next =>
      split at found
      next last =>
        cases declared.symm.trans found
        exact absurd same (fresh picked (last ▸ taken) known)
      next => exact coherent.apart one other picked taken left right known found same

/-- An exchange of a field leaves every schema its sample. -/
theorem sample_of_exchange {other : SchemaId} {next : Compiled}
    (known : (world.schema id).compiled = some compiled)
    (found : ((world.exchange id compiled field).schema other).compiled = some next) :
    ∃ left, (world.schema other).compiled = some left ∧ left.sample = next.sample := by
  rw [schema_exchange known] at found
  split at found
  next last =>
    cases found
    exact ⟨compiled, last ▸ known, Compiled.sample_replace.symm⟩
  next => exact ⟨next, found, rfl⟩

theorem Coherent.put {value : Value} (coherent : world.Coherent chosen)
    (faithful : world.Faithful) (picked : chosen id)
    (made : (world.recompile id name value).Yields before (compiled, field) last)
    (stands : compiled.SampledIn world.heap (world.schema id).recordClass index) :
    (world.put id compiled field index).Coherent chosen := by
  obtain ⟨old, known, found, compiles⟩ := recompile_yields.mp made
  have indexed := faithful.indexed known
  obtain ⟨member, named⟩ := indexed.field_eq_ok_iff.mp found
  have same : field.name = old.name :=
    (congrArg Prod.fst (Field.of_compile compiles).1).trans named.symm
  refine ⟨fun other => ?_, fun other taken next found => ?_,
    fun one other picked taken left right here there alike => ?_⟩
  · have declarations : ((world.exchange id compiled field).schema other).declarations =
        (world.schema other).declarations :=
      (congrArg Schema.declarations (outline_exchange known) :)
    exact declarations ▸ coherent.stored other
  · rw [put_schema, schema_exchange known] at found ⊢
    split at found
    next last =>
      cases found
      rw [if_pos last]
      exact ⟨index, stands.replace indexed member same⟩
    next differs =>
      rw [if_neg differs]
      obtain ⟨cell, elsewhere⟩ := coherent.sampled other taken next found
      have apart : cell ≠ index := fun equal => differs <|
        coherent.apart other id taken picked next compiled found known
          (by rw [elsewhere.sample, stands.sample, equal])
      exact ⟨cell, elsewhere.write_of_ne apart⟩
  · obtain ⟨former, stood, likewise⟩ := sample_of_exchange known here
    obtain ⟨latter, lay, also⟩ := sample_of_exchange known there
    exact coherent.apart one other picked taken former latter stood lay
      (likewise.trans (alike.trans also.symm))

end World

/-- All the difference that pointing a field of a schema at a value makes: the field, which stands
where it stood and where the index has it, and is still declared as it was, and what the schema's
sample has under its name. -/
structure World.RepointsOnly (before after : World) (id : SchemaId) (name : String) : Prop where
  others : ∀ other ≠ id, after.schema other = before.schema other
  outline : (after.schema id).outline = (before.schema id).outline
  fields : ∀ compiled, (before.schema id).compiled = some compiled →
    ∃ next, (after.schema id).compiled = some next ∧ next.sample = compiled.sample ∧
      next.catalogue = compiled.catalogue ∧ next.index = compiled.index ∧
      next.fields.map Field.entry = compiled.fields.map Field.entry ∧
      ∀ (position : Nat) (field : Field), field.name ≠ name →
        (next.fields[position]? = some field ↔ compiled.fields[position]? = some field)
  cells : ∀ cell, (∀ compiled, (before.schema id).compiled = some compiled →
    compiled.sample ≠ .ref cell) → after.heap.cell cell = before.heap.cell cell
  sample : ∀ compiled cell recordClass fields, (before.schema id).compiled = some compiled →
    compiled.sample = .ref cell → before.heap.cell cell = .record recordClass fields →
    ∃ next, after.heap.cell cell = .record recordClass next ∧
      Named.names next = Named.names fields ∧
      ∀ other ≠ name, Named.get? other next = Named.get? other fields

namespace World

variable {world after : World} {chosen : SchemaId → Prop} {id : SchemaId} {name : String}
  {value : Value} {compiled : Compiled} {field : Field} {before last : Trace} {index : Nat}

theorem RepointsOnly.refl (world : World) (id : SchemaId) (name : String) :
    world.RepointsOnly world id name where
  others _ _ := rfl
  outline := rfl
  fields compiled known := ⟨compiled, known, rfl, rfl, rfl, rfl, fun _ _ _ => Iff.rfl⟩
  cells _ _ := rfl
  sample _ _ _ fields _ _ record := ⟨fields, record, rfl, fun _ _ => rfl⟩

theorem getElem?_replace (indexed : compiled.Indexed) {position : Nat} {other : Field}
    (differs : other.name ≠ field.name) :
    (compiled.replace field).fields[position]? = some other ↔
      compiled.fields[position]? = some other := by
  simp only [indexed.fields_replace, List.getElem?_map, Option.map_eq_some_iff]
  constructor
  · rintro ⟨old, stands, same⟩
    split at same
    next => exact absurd (congrArg Field.name same).symm differs
    next => exact same ▸ stands
  · intro stands
    exact ⟨other, stands, if_neg differs⟩

theorem repointsOnly_put (faithful : world.Faithful)
    (made : (world.recompile id name value).Yields before (compiled, field) last)
    (stands : compiled.SampledIn world.heap (world.schema id).recordClass index) :
    world.RepointsOnly (world.put id compiled field index) id name := by
  obtain ⟨old, known, found, compiles⟩ := recompile_yields.mp made
  have indexed := faithful.indexed known
  obtain ⟨member, named⟩ := indexed.field_eq_ok_iff.mp found
  have entered := (Field.of_compile compiles).1
  have fieldName : field.name = name := congrArg Prod.fst entered
  refine ⟨fun other differs => ?_, outline_exchange known, fun left here => ?_,
    fun cell elsewhere => ?_, fun left cell recordClass fields here sample record => ?_⟩
  · exact (schema_exchange known).trans (if_neg differs)
  · cases known.symm.trans here
    have same : field.entry = old.entry := by
      rw [entered, ← named]
      rfl
    refine ⟨compiled.replace field, ?_, Compiled.sample_replace, Compiled.catalogue_replace,
      Compiled.index_replace, indexed.entries_replace member same,
      fun position other differs => getElem?_replace indexed (fieldName ▸ differs)⟩
    exact congrArg Schema.compiled ((schema_exchange known).trans (if_pos rfl))
  · have apart : cell ≠ index := fun same => elsewhere compiled known (same ▸ stands.sample)
    exact Heap.cell_write_of_ne apart
  · cases known.symm.trans here
    cases stands.sample.symm.trans sample
    cases stands.record.symm.trans record
    have present : field.name ∈ Named.names (compiled.fields.map Field.sampled) := by
      rw [fieldName, ← named]
      exact List.mem_map_of_mem (List.mem_map_of_mem member)
    exact ⟨_, Heap.cell_write_self stands.inside, Named.names_set_of_mem present,
      fun other differs => Named.get?_set_of_ne (fieldName ▸ differs)⟩

end World

namespace Session

open Act

/-- Whether a schema may be defined: its own declarations are stored, and if it is a chosen one, the
hook of its configuration keeps the records that it is given. -/
structure Prepared (chosen : SchemaId → Prop) (world : World) (bases : List SchemaId)
    (entries : List (String × Entry)) (config : Option ConfigurationId) : Prop where
  stored : ∀ key declaration, (key, .declared declaration) ∈ entries → declaration.sample.Stored
  keeps : chosen world.schemas.size →
    (world.config ((config.or (inheritedConfiguration world bases)).getD
      world.default)).finisher.Keeps

/-- What may be done beside the chosen schemas: all but changes to stored objects and the repointing
of schemas that have not been chosen. -/
def Change.Admissible (chosen : SchemaId → Prop) (world : World) : Change → Prop
  | .mutate .. => False
  | .define _ bases entries config => Prepared chosen world bases entries config
  | .defineFrom _ entries config => Prepared chosen world [0] entries config
  | .repoint id _ _ => chosen id
  | _ => True

/-- Every change is admissible when it is made. -/
def Keeping (chosen : SchemaId → Prop) : List Change → Prop
  | [] => True
  | change :: earlier =>
      change.Admissible chosen (after earlier).world ∧ Keeping chosen earlier

section Keeping

variable {chosen : SchemaId → Prop} {before after : Session} {id : SchemaId} {name : String}
  {value : Value}

theorem coherent_of_define {bases : List SchemaId} {entries : List (String × Entry)}
    {config : Option ConfigurationId} {result : Except Fault SchemaId}
    (coherent : before.world.Coherent chosen)
    (prepared : Prepared chosen before.world bases entries config)
    (ended : (defineSchema name bases entries config).Ends before result after) :
    after.world.Coherent chosen := by
  rcases defineSchema_ends ended with ⟨_, _, same⟩ | ⟨schema, heap, _, defines, grown⟩
  · rw [same]
    exact coherent
  · rw [grown]
    refine coherent.define prepared.stored (fun picked => ?_) defines
    rw [defines.config]
    exact prepared.keeps picked

/-- A chosen schema is repointed with its sample, or not at all. -/
theorem repoint_puts (coherent : before.world.Coherent chosen) (picked : chosen id)
    {result : Except Fault Unit} (ended : (repoint id name value).Ends before result after) :
    after.world = before.world ∨
    ∃ compiled field trace index,
      (before.world.recompile id name value).Yields before.trace (compiled, field) trace ∧
      compiled.SampledIn before.world.heap (before.world.schema id).recordClass index ∧
      after.world = before.world.put id compiled field index := by
  cases result with
  | ok done =>
      obtain ⟨compiled, field, trace, last, made, _, rfl⟩ := repoint_succeeds ended
      obtain ⟨old, known, _, compiles⟩ := recompile_yields.mp made
      obtain ⟨index, stands⟩ := coherent.sampled id picked compiled known
      obtain ⟨entered, rfl⟩ := Field.of_compile compiles
      obtain rfl : field.name = name := congrArg Prod.fst entered
      have stored : (before.world.exchange id compiled field).heap.cell index =
        .record _ (compiled.fields.map Field.sampled) := stands.record
      refine .inr ⟨compiled, field, trace, index, made, stands, ?_⟩
      rw [stands.sample, World.assign_record stored]
      rfl
  | error fault =>
      rcases repoint_fails ended with ⟨trace, _, rfl⟩ | ⟨compiled, field, trace, made, bare, _⟩
      · exact .inl rfl
      · obtain ⟨_, known, _, _⟩ := recompile_yields.mp made
        obtain ⟨index, stands⟩ := coherent.sampled id picked compiled known
        exact absurd (.inl ⟨index, _, _, stands.sample, stands.record⟩) bare

theorem coherent_of_repoint (coherent : before.world.Coherent chosen)
    (faithful : before.world.Faithful) (picked : chosen id) {result : Except Fault Unit}
    (ended : (repoint id name value).Ends before result after) : after.world.Coherent chosen := by
  rcases repoint_puts coherent picked ended with same | ⟨_, _, _, _, made, stands, same⟩
  · exact same ▸ coherent
  · exact same ▸ coherent.put faithful picked made stands

theorem repointsOnly_of_repoint (coherent : before.world.Coherent chosen)
    (faithful : before.world.Faithful) (picked : chosen id) {result : Except Fault Unit}
    (ended : (repoint id name value).Ends before result after) :
    before.world.RepointsOnly after.world id name := by
  rcases repoint_puts coherent picked ended with same | ⟨_, _, _, _, made, stands, same⟩
  · exact same ▸ World.RepointsOnly.refl _ id name
  · exact same ▸ World.repointsOnly_put faithful made stands

theorem coherent_of_change {change : Change} (coherent : before.world.Coherent chosen)
    (faithful : before.world.Faithful) (admissible : change.Admissible chosen before.world)
    {result : Except Fault Unit} (ended : change.act.Ends before result after) :
    after.world.Coherent chosen := by
  have idle (leaves : change.act.Leaves fun world => (world.schemas, world.heap)) :
      after.world.Coherent chosen := by
    obtain ⟨schemas, heap⟩ := Prod.mk.inj (leaves _ _ _ ended)
    exact coherent.grow schemas (heap ▸ Heap.Grows.refl _)
  cases change with
  | mutate target key value => exact absurd admissible not_false
  | newCatalogue build => exact idle (newCatalogue_leaves fun _ _ => rfl).forget
  | newConfiguration config => exact idle (newConfiguration_leaves fun _ _ => rfl).forget
  | derive config changes => exact idle (derive_leaves (fun _ _ => rfl) fun _ _ => rfl).forget
  | setDefault config => exact idle (setDefault_leaves fun _ _ => rfl).forget
  | changeDefault changes =>
      exact idle (changeDefault_leaves (fun _ _ => rfl) (fun _ _ => rfl) fun _ _ => rfl)
  | register config type => exact idle (register_leaves fun _ _ => rfl)
  | run action => exact idle leaves_ofRun
  | place value =>
      obtain ⟨_, placed⟩ := ends_of_forget ended
      obtain ⟨_, rfl⟩ := ends_place.mp placed
      exact coherent.grow rfl ((Heap.Grows.refl _).place value)
  | define name bases entries config =>
      obtain ⟨_, defined⟩ := ends_of_forget ended
      exact coherent_of_define coherent admissible defined
  | defineFrom name entries config =>
      obtain ⟨_, defined⟩ := ends_of_forget ended
      rcases defineFrom_ends defined with rfl | defined
      · exact coherent
      · exact coherent_of_define coherent admissible defined
  | repoint id name value => exact coherent_of_repoint coherent faithful admissible ended

theorem coherent_after {changes : List Change} (keeping : Keeping chosen changes) :
    (Session.after changes).world.Coherent chosen := by
  induction changes with
  | nil =>
      refine ⟨fun id entry member => ?_, fun id _ compiled known => ?_,
        fun one _ _ _ left _ known _ _ => ?_⟩
      · rw [schema_start] at member
        cases member
      · rw [schema_start] at known
        cases known
      · rw [schema_start] at known
        cases known
  | cons change earlier ih =>
      exact coherent_of_change (ih keeping.2) (faithful_after earlier) keeping.1
        (ends_act change earlier)

end Keeping

/-- A schema's fields, the index that they are found by and its sample tell the same, and every type
is what the schema's catalogue made of the sample when the field was compiled for the last time. -/
structure InStep (changes : List Change) (id : SchemaId) (compiled : Compiled) : Prop where
  declarations :
    compiled.fields.map Field.entry = ((after changes).world.schema id).declarations
  /-- The index knows the fields' names and no others, and has the position that each stands at. -/
  names : Named.names compiled.index = compiled.fields.map (·.name)
  places : ∀ position field, compiled.fields[position]? = some field →
    compiled.place? field.name = some position ∧ compiled.field field.name = .ok field
  sample : ∃ cell fields, compiled.sample = .ref cell ∧
    (after changes).world.heap.cell cell =
      .record ((after changes).world.schema id).recordClass fields ∧
    Named.names fields = compiled.fields.map (·.name) ∧
    ∀ field ∈ compiled.fields, Named.get? field.name fields = some field.sample
  types : ∀ field ∈ compiled.fields, ∃ past, CompiledAfter id field.name changes past ∧
    ∃ first last, (((after past).world.catalogue compiled.catalogue).typeFor
      (after past).world.heap field.sample).Yields first field.type last

/-- Whatever else is done, and however often chosen schemas are repointed, with or without success:
a chosen schema is in step with its sample, no two of them have one sample, and pointing a field of
one of them at a value changes nothing but this field and its place in the sample. -/
theorem schemas_stay_in_step {chosen : SchemaId → Prop} {changes : List Change}
    (keeping : Keeping chosen changes) :
    (∀ id, chosen id → 0 < id → id < (after changes).world.schemas.size →
      ∃ compiled, ((after changes).world.schema id).compiled = some compiled ∧
        InStep changes id compiled) ∧
    (∀ one other left right, chosen one → chosen other → one ≠ other →
      ((after changes).world.schema one).compiled = some left →
      ((after changes).world.schema other).compiled = some right → left.sample ≠ right.sample) ∧
    ∀ id name value result last, chosen id →
      (repoint id name value).Ends (after changes) result last →
      (after changes).world.RepointsOnly last.world id name := by
  have coherent := coherent_after keeping
  have faithful := faithful_after changes
  refine ⟨fun id picked above here => ?_, fun one other left right picked taken differs known found
    same => ?_, fun id name value result last picked ended => ?_⟩
  · obtain ⟨compiled, known⟩ := Option.isSome_iff_exists.mp (faithful.compiled id above here)
    have indexed := faithful.indexed known
    obtain ⟨index, stands⟩ := coherent.sampled id picked compiled known
    refine ⟨compiled, known, faithful.entries id compiled known, indexed.names_index,
      fun position field found => ⟨?_, ?_⟩, ?_, fun field member => ?_⟩
    · exact indexed.place?_eq_some_iff.mpr ⟨field, found, rfl⟩
    · exact indexed.field_eq_ok_iff.mpr ⟨List.mem_of_getElem? found, rfl⟩
    · refine ⟨index, _, stands.sample, stands.record, ?_,
        fun field member => get?_sampled indexed.distinct member⟩
      rw [Named.names, List.map_map]
      rfl
    · obtain ⟨past, since, made⟩ := compiledAfter_of_hasFieldOf ⟨compiled, known, rfl, member⟩
      exact ⟨past, since, made.typeFor⟩
  · exact differs (coherent.apart one other picked taken left right known found same)
  · exact repointsOnly_of_repoint coherent faithful picked ended

end Session

theorem Finisher.keeps_identity : Finisher.identity.Keeps :=
  fun _ _ _ _ _ ran => (Run.yields_pure.mp ran).1

namespace Chain

open Session

/-- A node whose next one is the node itself; then a type is registered, and a field is pointed at
another sample that the node does not have. The last change comes first. -/
def changes : List Change :=
  [.repoint 1 "last" .null, .register 0 .bigInteger, .repoint 1 "next" (.ref 0),
    .define "Node" [0]
      [("value", .declared { sample := .int 0 }),
        ("next", .declared { sample := .null, mode := .optional })] none]

theorem keeping : Keeping (fun _ => True) changes := by
  refine ⟨trivial, trivial, trivial, ⟨fun key declaration member => ?_, fun _ => ?_⟩, trivial⟩
  · simp only [List.mem_cons, Prod.mk.injEq, Entry.declared.injEq, List.not_mem_nil,
      or_false] at member
    rcases member with ⟨_, rfl⟩ | ⟨_, rfl⟩ <;> trivial
  · exact Finisher.keeps_identity

end Chain

/-- The node is in step with its sample, and when the chain is made to end there, nothing changes
but the next node. -/
theorem schemas_stay_in_step_chain :
    Session.Keeping (fun _ => True) Chain.changes ∧
    (∃ compiled, ((Session.after Chain.changes).world.schema 1).compiled = some compiled ∧
      Session.InStep Chain.changes 1 compiled) ∧
    ∀ result last, (Session.repoint 1 "next" .null).Ends (Session.after Chain.changes) result last →
      (Session.after Chain.changes).world.RepointsOnly last.world 1 "next" := by
  obtain ⟨inStep, _, frame⟩ := Session.schemas_stay_in_step Chain.keeping
  have here : 1 < (Session.after Chain.changes).world.schemas.size := by decide
  exact ⟨Chain.keeping, inStep 1 trivial Nat.zero_lt_one here,
    fun result last ended => frame 1 "next" .null result last trivial ended⟩

end Exemplar
