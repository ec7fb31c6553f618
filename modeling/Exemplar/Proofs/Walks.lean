import Exemplar.Model
import Exemplar.Proofs.BuiltIn
import Exemplar.Proofs.Circles
import Exemplar.Proofs.MissingInput

/-!
How models are built. A walk goes from schema to schema through the samples, depth first, and knows
what has become of each: no model yet, a model under way, or a finished one. The models under way
are those of the schemas on the path that the walk has taken, so the walk turns back exactly where
the path would close, and no model is built twice.
-/

namespace Exemplar

namespace Model

section Builds

variable {α β : Type} {faults : Fault → Prop} {action : Build α} {table : ModelTable} {value : α}
  {fault : Fault} {promised : α → ModelTable → Prop}

/-- From every trace the computation gives a value and a table as promised, or breaks down with a
fault that is reckoned with. -/
def Ends (faults : Fault → Prop) (action : Build α) (table : ModelTable)
    (promised : α → ModelTable → Prop) : Prop :=
  ∀ before,
    (∃ value grown after, (StateT.run action table).Yields before (value, grown) after ∧
      promised value grown) ∨
    ∃ fault after, (StateT.run action table).Breaks before fault after ∧ faults fault

theorem ends_pure (kept : promised value table) : Ends faults (pure value) table promised :=
  fun before => .inl ⟨value, table, before, Run.yields_pure.mpr ⟨rfl, rfl⟩, kept⟩

theorem ends_throw (known : faults fault) :
    Ends faults (throw fault : Build α) table promised :=
  fun before => .inr ⟨fault, before, rfl, known⟩

theorem ends_get {promised : ModelTable → ModelTable → Prop} (kept : promised table table) :
    Ends faults get table promised :=
  fun before => .inl ⟨table, table, before, rfl, kept⟩

theorem ends_modify {change : ModelTable → ModelTable} {promised : PUnit → ModelTable → Prop}
    (kept : promised ⟨⟩ (change table)) : Ends faults (modify change) table promised :=
  fun before => .inl ⟨⟨⟩, change table, before, rfl, kept⟩

/-- What has nothing to do with the table leaves it as it is. -/
theorem ends_run {run : Run α} (broken : ∀ {before fault after}, run.Breaks before fault after →
    faults fault) :
    Ends faults (monadLift run : Build α) table fun value kept =>
      table = kept ∧ ∃ before after, run.Yields before value after := by
  intro before
  rcases run.yields_or_breaks before with ⟨value, after, yielded⟩ | ⟨fault, after, broke⟩
  · exact .inl ⟨value, table, after,
      Run.yields_bind.mpr ⟨value, after, yielded, Run.yields_pure.mpr ⟨rfl, rfl⟩⟩, rfl, before,
      after, yielded⟩
  · exact .inr ⟨fault, after, broke.bind, broken broke⟩

theorem Ends.bind {next : α → Build β} {result : β → ModelTable → Prop}
    (first : Ends faults action table promised)
    (rest : ∀ value grown, promised value grown → Ends faults (next value) grown result) :
    Ends faults (action >>= next) table result := by
  intro before
  rcases first before with ⟨value, grown, middle, yielded, kept⟩ | ⟨fault, after, broke, known⟩
  · have opened : (StateT.run (action >>= next) table).run.run before =
        (StateT.run (next value) grown).run.run middle := by
      rw [StateT.run_bind]
      exact yielded.bind
    rcases rest value grown kept middle with ⟨other, last, after, ended, held⟩ |
      ⟨fault, after, broke, known⟩
    · exact .inl ⟨other, last, after, opened.trans ended, held⟩
    · exact .inr ⟨fault, after, opened.trans broke, known⟩
  · refine .inr ⟨fault, after, ?_, known⟩
    rw [StateT.run_bind]
    exact broke.bind

theorem Ends.mono {weaker : α → ModelTable → Prop} (ends : Ends faults action table promised)
    (implies : ∀ value grown, promised value grown → weaker value grown) :
    Ends faults action table weaker := by
  intro before
  rcases ends before with ⟨value, grown, after, yielded, kept⟩ | broke
  · exact .inl ⟨value, grown, after, yielded, implies value grown kept⟩
  · exact .inr broke

theorem Ends.of_yields {before after : Trace} {grown : ModelTable}
    (ends : Ends faults action table promised)
    (yielded : (StateT.run action table).Yields before (value, grown) after) :
    promised value grown := by
  rcases ends before with ⟨_, _, _, ended, kept⟩ | ⟨_, _, broke, _⟩
  · cases (yielded.unique ended).1
    exact kept
  · exact absurd broke yielded.not_breaks

end Builds

end Model

/-- The elements of a list or a set. -/
def Value.gathered : Value → List Value
  | .list elements | .set elements | .frozenSet elements => elements
  | _ => []

theorem follows_gathered : Heap.Follows Value.gathered where
  parts member := by
    unfold Value.gathered at member
    split at member <;> simp_all [Value.parts]
  copied shape := by
    cases shape <;> simp [Value.gathered, Value.copied, Value.copiedAll_eq]

theorem gathered_of_gathering {heap : Heap} {sample : Value} {kind : Gathering}
    {elements : List Value} (shape : heap.gathering? sample = some (kind, elements)) :
    (heap.look sample).gathered = elements := by
  unfold Heap.gathering? at shape
  unfold Value.gathered
  split at shape <;> simp_all

theorem record_of_isRecord {heap : Heap} {sample : Value} (nested : heap.isRecord sample = true) :
    ∃ recordClass fields, heap.look sample = .record recordClass fields := by
  unfold Heap.isRecord at nested
  split at nested
  next recordClass fields shape => exact ⟨recordClass, fields, shape⟩
  next => cases nested

namespace Model

/-- The type for a list or a set. -/
def collected : Gathering → ModelType → ModelType
  | .array => .list
  | .set => .set

/-- The type for a sample that is neither a collection nor a record. -/
def plainType (heap : Heap) (sample : Value) : ModelType :=
  match heap.look sample with
  | .bigInteger _ => .named "int"
  | .null => .any
  | shape => .named shape.className

section Types

variable {heap : Heap} {modelFor : SchemaId → Build ModelType} {fuel : Nat} {sample first : Value}
  {kind : Gathering} {rest : List Value}

theorem typeWith_plain (bare : heap.gathering? sample = none)
    (single : heap.isRecord sample = false) :
    typeWith heap modelFor (fuel + 1) sample = pure (plainType heap sample) := by
  unfold Heap.gathering? at bare
  unfold Heap.isRecord at single
  unfold typeWith plainType
  cases shape : heap.look sample <;> simp_all

theorem typeWith_record {recordClass : RecordClass} {fields : List (String × Value)}
    (shape : heap.look sample = .record recordClass fields) :
    typeWith heap modelFor (fuel + 1) sample = modelFor recordClass.number := by
  simp only [typeWith, shape]

theorem typeWith_empty (shape : heap.gathering? sample = some (kind, [])) :
    typeWith heap modelFor (fuel + 1) sample = pure (collected kind .any) := by
  unfold Heap.gathering? at shape
  unfold typeWith
  cases look : heap.look sample <;> simp_all <;> cases shape.1 <;> rfl

theorem typeWith_first (shape : heap.gathering? sample = some (kind, first :: rest)) :
    typeWith heap modelFor (fuel + 1) sample =
      (do return collected kind (← typeWith heap modelFor fuel first)) := by
  unfold Heap.gathering? at shape
  rw [typeWith]
  cases look : heap.look sample <;> simp_all <;> cases shape.1 <;> rfl

end Types

end Model

/-- A sample stands for records of the schema with this number. -/
def Heap.RefersTo (heap : Heap) (sample : Value) (id : SchemaId) : Prop :=
  ∃ recordClass, heap.StandsFor sample recordClass ∧ recordClass.number = id

namespace World

/-- A sample among the fields of the one schema stands for records of the other. -/
def Refers (world : World) (id next : SchemaId) : Prop :=
  ∃ compiled field, (world.schema id).compiled = some compiled ∧ field ∈ compiled.fields ∧
    world.heap.RefersTo field.sample next

/-- Samples lead from the one schema to the other. -/
def Reaches (world : World) : SchemaId → SchemaId → Prop := Relation.ReflTransGen world.Refers

end World

section Reference

variable {heap : Heap} {sample : Value} {id : SchemaId}

theorem refersTo_of_record {recordClass : RecordClass} {fields : List (String × Value)}
    (shape : heap.look sample = .record recordClass fields) :
    heap.RefersTo sample id ↔ id = recordClass.number := by
  constructor
  · rintro ⟨other, stands, rfl⟩
    cases stands with
    | record same =>
        cases shape.symm.trans same
        rfl
    | element gathered _ => simp [Heap.gathering?, shape] at gathered
  · rintro rfl
    exact ⟨recordClass, .record shape, rfl⟩

theorem refersTo_of_first {kind : Gathering} {first : Value} {rest : List Value}
    (shape : heap.gathering? sample = some (kind, first :: rest)) :
    heap.RefersTo sample id ↔ heap.RefersTo first id := by
  constructor
  · rintro ⟨recordClass, stands, same⟩
    cases stands with
    | record look => simp [Heap.gathering?, look] at shape
    | element gathered inner =>
        cases shape.symm.trans gathered
        exact ⟨recordClass, inner, same⟩
  · rintro ⟨recordClass, stands, same⟩
    exact ⟨recordClass, .element shape stands, same⟩

theorem not_refersTo_of_empty {kind : Gathering}
    (shape : heap.gathering? sample = some (kind, [])) : ¬ heap.RefersTo sample id := by
  rintro ⟨recordClass, stands, _⟩
  cases stands with
  | record look => simp [Heap.gathering?, look] at shape
  | element gathered _ => cases shape.symm.trans gathered

theorem not_refersTo_of_plain (bare : heap.gathering? sample = none)
    (single : heap.isRecord sample = false) : ¬ heap.RefersTo sample id := by
  rintro ⟨recordClass, stands, _⟩
  cases stands with
  | record look => simp [Heap.isRecord, look] at single
  | element gathered _ => cases bare.symm.trans gathered

end Reference

namespace ModelTable

def ids (table : ModelTable) : List SchemaId := table.map (·.1)

variable {table : ModelTable} {id other : SchemaId} {model : Model} {found : Option Model}

theorem mem_ids : id ∈ table.ids ↔ ∃ found, (id, found) ∈ table := by
  simp [ids]

theorem find?_eq_none : table.find? id = none ↔ id ∉ table.ids := by
  simp only [find?, Option.map_eq_none_iff, List.find?_eq_none, ids, List.mem_map, not_exists,
    not_and, beq_iff_eq]

theorem mem_of_find? (known : table.find? id = some found) : (id, found) ∈ table := by
  simp only [find?, Option.map_eq_some_iff] at known
  obtain ⟨entry, first, rfl⟩ := known
  have same : entry.1 = id := by simpa using List.find?_some first
  exact same ▸ List.mem_of_find?_eq_some first

@[simp] theorem ids_append : ids (table ++ [(id, found)]) = table.ids ++ [id] := by
  simp [ids]

@[simp] theorem ids_finish : (table.finish id model).ids = table.ids := by
  simp only [ids, finish, List.map_map]
  refine List.map_congr_left fun entry _ => ?_
  simp only [Function.comp_apply]
  split
  next same => exact same.symm
  next => rfl

theorem mem_finish : (other, found) ∈ table.finish id model ↔
    other ≠ id ∧ (other, found) ∈ table ∨ other = id ∧ found = some model ∧ id ∈ table.ids := by
  simp only [finish, List.mem_map, mem_ids]
  constructor
  · rintro ⟨⟨entry, was⟩, member, changed⟩
    split at changed
    next same =>
      cases changed
      exact .inr ⟨rfl, rfl, was, same ▸ member⟩
    next different =>
      cases changed
      exact .inl ⟨different, member⟩
  · rintro (⟨different, member⟩ | ⟨rfl, rfl, was, member⟩)
    · exact ⟨(other, found), member, by simp [different]⟩
    · exact ⟨(other, was), member, by simp⟩

theorem unique (distinct : table.ids.Nodup) {one two : Option Model} (first : (id, one) ∈ table)
    (second : (id, two) ∈ table) : one = two := by
  have same : (id, one) = (id, two) := List.inj_on_of_nodup_map distinct first second rfl
  cases same
  rfl

end ModelTable

namespace Model

/-- Allowed values without a fallback take the place of the type. -/
def chosen (heap : Heap) (declaration : Declaration) (plain : ModelType) : ModelType :=
  match declaration.allowed, declaration.fallback with
  | some choices, none => .literal (literalValues heap choices)
  | _, _ => plain

/-- What becomes of a field whose sample has a type: it has null for a default if it is optional,
and what stands in for its sample if it has a default and the sample is no record. -/
inductive Describes (heap : Heap) (field : Field) (plain : ModelType) : ModelField → Prop
  | optional : field.declaration.mode = .optional →
      Describes heap field plain
        (boundsOf heap field (.optional (chosen heap field.declaration plain)) (some .null))
  | demanded : field.declaration.mode = .required ∨
        field.declaration.mode = .defaulted ∧ heap.isRecord field.sample = true →
      Describes heap field plain
        (boundsOf heap field (chosen heap field.declaration plain) none)
  | defaulted {default before after} : field.declaration.mode = .defaulted →
      heap.isRecord field.sample = false →
      (field.type.standIn heap field.sample).Yields before default after →
      Describes heap field plain
        (boundsOf heap field (chosen heap field.declaration plain) (some default))

mutual

/-- The walk comes to a schema by a path, and goes on from a table of models to another. On the path
it turns back. Of a schema that has its model the model is shared, and of any other the model is
built, with the schema itself on the path. -/
inductive Walks (world : World) :
    List SchemaId → ModelTable → SchemaId → ModelType → ModelTable → Prop
  | back {path table id} : id ∈ path →
      Walks world path table id (.mapping (.named "str") .any) table
  | shared {path table id model} : id ∉ path → (id, some model) ∈ table →
      Walks world path table id (.model id) table
  | built {path table id compiled entries grown} : id ∉ path → id ∉ table.ids →
      (world.schema id).compiled = some compiled →
      WalksFields world (id :: path) (table ++ [(id, none)]) compiled.fields entries grown →
      Walks world path table id (.model id)
        (grown.finish id ⟨nameFor (world.schema id).name, entries⟩)

/-- The fields in turn, each with an entry of its own. -/
inductive WalksFields (world : World) :
    List SchemaId → ModelTable → List Field → List ModelField → ModelTable → Prop
  | nil {path table} : WalksFields world path table [] [] table
  | cons {path table field rest plain entry middle entries grown} :
      WalksSample world path table field.sample plain middle →
      Describes world.heap field plain entry →
      WalksFields world path middle rest entries grown →
      WalksFields world path table (field :: rest) (entry :: entries) grown

/-- The type of a sample, told from its first element where it is a list or a set. -/
inductive WalksSample (world : World) :
    List SchemaId → ModelTable → Value → ModelType → ModelTable → Prop
  | record {path table sample recordClass fields type grown} :
      world.heap.look sample = .record recordClass fields →
      Walks world path table recordClass.number type grown →
      WalksSample world path table sample type grown
  | empty {path table sample kind} : world.heap.gathering? sample = some (kind, []) →
      WalksSample world path table sample (collected kind .any) table
  | first {path table sample kind first rest type grown} :
      world.heap.gathering? sample = some (kind, first :: rest) →
      WalksSample world path table first type grown →
      WalksSample world path table sample (collected kind type) grown
  | plain {path table sample} : world.heap.gathering? sample = none →
      world.heap.isRecord sample = false →
      WalksSample world path table sample (plainType world.heap sample) table

end

/-- The model has one entry for each field of the schema, in their order. -/
def IsModelOf (world : World) (id : SchemaId) (model : Model) : Prop :=
  ∃ compiled, (world.schema id).compiled = some compiled ∧
    model.name = nameFor (world.schema id).name ∧
    List.Forall₂ (fun field entry => ∃ plain, Describes world.heap field plain entry)
      compiled.fields model.fields

/-- A table as the walk has it on a path: no schema is met twice, the models under way are those on
the path, and all that finished models refer to is met. -/
structure Ready (world : World) (root : SchemaId) (path : List SchemaId) (table : ModelTable) :
    Prop where
  distinct : table.ids.Nodup
  apart : path.Nodup
  underway {id} : (id, none) ∈ table ↔ id ∈ path
  reached {id} : id ∈ table.ids → world.Reaches root id
  finished {id model} : (id, some model) ∈ table → IsModelOf world id model
  closed {id model next} : (id, some model) ∈ table → world.Refers id next → next ∈ table.ids

/-- From one table to the next nothing is forgotten, and the schemas sought are met. -/
structure Goes (world : World) (root : SchemaId) (path : List SchemaId) (table grown : ModelTable)
    (sought : SchemaId → Prop) : Prop where
  ready : Ready world root path grown
  grows : table.ids ⊆ grown.ids
  met {id} : sought id → id ∈ grown.ids

section Tables

variable {world : World} {root id : SchemaId} {path : List SchemaId} {table grown : ModelTable}
  {model : Model}

theorem ready_empty : Ready world root [] [] where
  distinct := .nil
  apart := .nil
  underway := by simp
  reached := nofun
  finished := nofun
  closed := nofun

theorem Ready.path_subset (ready : Ready world root path table) : path ⊆ table.ids :=
  fun _ member => ModelTable.mem_ids.mpr ⟨none, ready.underway.mpr member⟩

theorem Ready.enter (ready : Ready world root path table) (fresh : id ∉ table.ids)
    (reached : world.Reaches root id) :
    Ready world root (id :: path) (table ++ [(id, none)]) where
  distinct := by
    rw [ModelTable.ids_append]
    exact ready.distinct.append (List.nodup_singleton id) (by simpa using fresh)
  apart := List.nodup_cons.mpr ⟨fun member => fresh (ready.path_subset member), ready.apart⟩
  underway := by simp [ready.underway, or_comm]
  reached := by
    intro other member
    rw [ModelTable.ids_append, List.mem_append, List.mem_singleton] at member
    rcases member with member | rfl
    · exact ready.reached member
    · exact reached
  finished := by
    intro other model member
    exact ready.finished (by simpa using member)
  closed := by
    intro other model next member refers
    rw [ModelTable.ids_append]
    exact List.mem_append_left [id] (ready.closed (by simpa using member) refers)

theorem Ready.finish (ready : Ready world root (id :: path) grown)
    (made : IsModelOf world id model) (all : ∀ next, world.Refers id next → next ∈ grown.ids) :
    Ready world root path (grown.finish id model) where
  distinct := by
    rw [ModelTable.ids_finish]
    exact ready.distinct
  apart := (List.nodup_cons.mp ready.apart).2
  underway := by
    intro other
    have fresh := (List.nodup_cons.mp ready.apart).1
    rw [ModelTable.mem_finish, ready.underway]
    constructor
    · rintro (⟨different, member⟩ | ⟨_, ⟨⟩, _⟩)
      exact (List.mem_cons.mp member).resolve_left different
    · intro member
      exact .inl ⟨fun same => fresh (same ▸ member), List.mem_cons_of_mem id member⟩
  reached := by
    intro other member
    rw [ModelTable.ids_finish] at member
    exact ready.reached member
  finished := by
    intro other found member
    rcases ModelTable.mem_finish.mp member with ⟨_, member⟩ | ⟨rfl, ⟨⟩, _⟩
    · exact ready.finished member
    · exact made
  closed := by
    intro other found next member refers
    rw [ModelTable.ids_finish]
    rcases ModelTable.mem_finish.mp member with ⟨_, member⟩ | ⟨rfl, _, _⟩
    · exact ready.closed member refers
    · exact all next refers

end Tables

/-- The schemas that samples lead to from a schema are all compiled. -/
def AllCompiled (world : World) (root : SchemaId) : Prop :=
  ∀ id, world.Reaches root id → ∃ compiled, (world.schema id).compiled = some compiled

/-- No list or set among the samples of these schemas is inside of itself. -/
def Unknotted (world : World) (root : SchemaId) : Prop :=
  ∀ {id compiled field}, world.Reaches root id → (world.schema id).compiled = some compiled →
    field ∈ compiled.fields → world.heap.StraightFrom Value.gathered field.sample

/-- Every fault that a walk from the schema can run into is reckoned with: that a schema on the way
is not compiled, that the default of a field cannot be made and, unless no collection among the
samples is inside of itself, that the samples are nested without end. -/
structure Reckons (world : World) (root : SchemaId) (faults : Fault → Prop) : Prop where
  uncompiled {id fault} : world.Reaches root id →
    (world.schema id).demandCompiled = .error fault → faults fault
  endless : faults .tooDeep ∨
    world.heap.Flat ∧ Unknotted world root ∧ AllCompiled world root
  standIn {id compiled field before fault after} : world.Reaches root id →
    (world.schema id).compiled = some compiled → field ∈ compiled.fields →
    field.declaration.mode = .defaulted → world.heap.isRecord field.sample = false →
    (field.type.standIn world.heap field.sample).Breaks before fault after → faults fault

section Walking

variable {world : World} {root id : SchemaId} {path : List SchemaId} {table grown : ModelTable}
  {faults : Fault → Prop} {fuel : Nat} {sample : Value} {field : Field} {fields : List Field}
  {modelFor : SchemaId → Build ModelType}

theorem Goes.refl {sought : SchemaId → Prop} (ready : Ready world root path table)
    (met : ∀ {id}, sought id → id ∈ table.ids) : Goes world root path table table sought :=
  ⟨ready, fun _ member => member, met⟩

/-- The walk to a schema from such a path ends as it should. -/
def Arrives (world : World) (root : SchemaId) (path : List SchemaId) (faults : Fault → Prop)
    (modelFor : SchemaId → Build ModelType) : Prop :=
  ∀ {id table}, world.Reaches root id → Ready world root path table →
    Ends faults (modelFor id) table fun type grown =>
      Walks world path table id type grown ∧ Goes world root path table grown (· = id)

theorem typeWith_ends (arrives : Arrives world root path faults modelFor)
    (deep : faults .tooDeep ∨ world.heap.FollowedWithin Value.gathered fuel sample)
    (reached : ∀ {id}, world.heap.RefersTo sample id → world.Reaches root id)
    (ready : Ready world root path table) :
    Ends faults (typeWith world.heap modelFor fuel sample) table fun type grown =>
      WalksSample world path table sample type grown ∧
        Goes world root path table grown (world.heap.RefersTo sample) := by
  induction fuel generalizing sample with
  | zero => exact ends_throw (deep.resolve_right id)
  | succ fuel ih =>
      cases gathered : world.heap.gathering? sample with
      | some gathering =>
          obtain ⟨kind, elements⟩ := gathering
          cases elements with
          | nil =>
              rw [typeWith_empty gathered]
              exact ends_pure ⟨.empty gathered,
                .refl ready fun refers => (not_refersTo_of_empty gathered refers).elim⟩
          | cons first rest =>
              have member : first ∈ (world.heap.look sample).gathered := by
                rw [gathered_of_gathering gathered]
                exact List.mem_cons_self
              have inner := ih (deep.imp_right fun within => within first member)
                fun refers => reached ((refersTo_of_first gathered).mpr refers)
              rw [typeWith_first gathered]
              refine inner.bind fun type grown done => ends_pure ⟨.first gathered done.1, ?_⟩
              exact ⟨done.2.ready, done.2.grows,
                fun refers => done.2.met ((refersTo_of_first gathered).mp refers)⟩
      | none =>
          cases nested : world.heap.isRecord sample with
          | false =>
              rw [typeWith_plain gathered nested]
              exact ends_pure ⟨.plain gathered nested,
                .refl ready fun refers => (not_refersTo_of_plain gathered nested refers).elim⟩
          | true =>
              obtain ⟨recordClass, values, shape⟩ := record_of_isRecord nested
              have refers : world.heap.RefersTo sample recordClass.number :=
                (refersTo_of_record shape).mpr rfl
              rw [typeWith_record shape]
              refine (arrives (reached refers) ready).mono fun type grown done => ?_
              exact ⟨.record shape done.1, done.2.ready, done.2.grows,
                fun refers => done.2.met ((refersTo_of_record shape).mp refers)⟩

theorem isRecord_look {heap : Heap} : isRecord (heap.look sample) = heap.isRecord sample := rfl

theorem fieldWith_ends {promised : ModelType → ModelTable → Prop}
    (typed : Ends faults (typeWith world.heap modelFor (world.heap.reach field.sample) field.sample)
      table promised)
    (standIn : ∀ {before fault after}, field.declaration.mode = .defaulted →
      world.heap.isRecord field.sample = false →
      (field.type.standIn world.heap field.sample).Breaks before fault after → faults fault) :
    Ends faults (fieldWith world.heap modelFor field) table fun entry grown =>
      ∃ plain, Describes world.heap field plain entry ∧ promised plain grown := by
  refine typed.bind fun plain grown done => ?_
  dsimp only
  cases mode : field.declaration.mode with
  | optional => exact ends_pure ⟨plain, .optional mode, done⟩
  | required => exact ends_pure ⟨plain, .demanded (.inl mode), done⟩
  | defaulted =>
      dsimp only
      cases nested : world.heap.isRecord field.sample with
      | true =>
          rw [if_pos (isRecord_look.trans nested)]
          exact ends_pure ⟨plain, .demanded (.inr ⟨mode, nested⟩), done⟩
      | false =>
          rw [if_neg (isRecord_look.trans nested ▸ Bool.false_ne_true)]
          refine Ends.bind (ends_run (standIn mode nested)) fun default last stood => ?_
          obtain ⟨rfl, before, after, stood⟩ := stood
          exact ends_pure ⟨plain, .defaulted mode nested stood, done⟩

theorem fields_end (arrives : Arrives world root path faults modelFor)
    (deep : ∀ field ∈ fields, faults .tooDeep ∨
      world.heap.FollowedWithin Value.gathered (world.heap.reach field.sample) field.sample)
    (reached : ∀ field ∈ fields, ∀ {id}, world.heap.RefersTo field.sample id →
      world.Reaches root id)
    (standIn : ∀ field ∈ fields, ∀ {before fault after}, field.declaration.mode = .defaulted →
      world.heap.isRecord field.sample = false →
      (field.type.standIn world.heap field.sample).Breaks before fault after → faults fault)
    (ready : Ready world root path table) :
    Ends faults (fields.mapM (fieldWith world.heap modelFor)) table fun entries grown =>
      WalksFields world path table fields entries grown ∧
        List.Forall₂ (fun field entry => ∃ plain, Describes world.heap field plain entry) fields
          entries ∧
        Goes world root path table grown
          fun id => ∃ field ∈ fields, world.heap.RefersTo field.sample id := by
  induction fields generalizing table with
  | nil =>
      rw [List.mapM_nil]
      exact ends_pure ⟨.nil, .nil, .refl ready (by simp)⟩
  | cons field rest ih =>
      simp only [List.forall_mem_cons] at deep reached standIn
      have first := fieldWith_ends (typeWith_ends arrives deep.1 reached.1 ready) standIn.1
      rw [List.mapM_cons]
      refine first.bind fun entry middle done => ?_
      obtain ⟨plain, describes, walks, goes⟩ := done
      refine (ih deep.2 reached.2 standIn.2 goes.ready).bind fun entries grown done => ?_
      obtain ⟨others, each, further⟩ := done
      refine ends_pure ⟨.cons walks describes others, .cons ⟨plain, describes⟩ each, further.ready,
        List.Subset.trans goes.grows further.grows, ?_⟩
      rintro id ⟨holder, member, refers⟩
      rcases List.mem_cons.mp member with rfl | member
      · exact further.grows (goes.met refers)
      · exact further.met ⟨holder, member, refers⟩

theorem size_of_compiled {compiled : Compiled}
    (declared : (world.schema id).compiled = some compiled) : id < world.schemas.size := by
  by_contra beyond
  have outside : world.schema id = Schema.root := by simp [World.schema, beyond]
  rw [outside] at declared
  cases declared

theorem Ready.length_le (ready : Ready world root path table) (known : AllCompiled world root) :
    path.length ≤ world.schemas.size := by
  have within : path ⊆ List.range world.schemas.size := by
    intro id member
    obtain ⟨compiled, declared⟩ := known id (ready.reached (ready.path_subset member))
    exact List.mem_range.mpr (size_of_compiled declared)
  simpa using (ready.apart.subperm within).length_le

theorem Reckons.deep {compiled : Compiled} (reckons : Reckons world root faults)
    (reached : world.Reaches root id) (declared : (world.schema id).compiled = some compiled) :
    ∀ field ∈ compiled.fields, faults .tooDeep ∨
      world.heap.FollowedWithin Value.gathered (world.heap.reach field.sample) field.sample := by
  refine fun field member => reckons.endless.imp_right fun ⟨flat, unknotted, _⟩ => ?_
  exact ((unknotted reached declared member).within flat follows_gathered).mono (Nat.le_succ _)

theorem modelTo_arrives (reckons : Reckons world root faults)
    (enough : faults .tooDeep ∨ world.schemas.size < fuel + path.length) :
    Arrives world root path faults (modelTo world fuel) := by
  induction fuel generalizing path with
  | zero =>
      intro id table reached ready
      refine ends_throw (reckons.endless.elim (fun deep => deep) fun known => ?_)
      refine enough.resolve_right fun short => ?_
      have := ready.length_le known.2.2
      omega
  | succ fuel ih =>
      intro id table reached ready
      rw [modelTo]
      have got : Ends faults (get : Build ModelTable) table fun seen kept =>
          table = seen ∧ table = kept := ends_get ⟨rfl, rfl⟩
      refine got.bind fun _ _ same => ?_
      obtain ⟨rfl, rfl⟩ := same
      cases known : ModelTable.find? table id with
      | some found =>
          have member := ModelTable.mem_of_find? known
          have met : ∀ {other}, other = id → other ∈ table.ids := fun same =>
            ModelTable.mem_ids.mpr ⟨found, same ▸ member⟩
          cases found with
          | none =>
              refine Ends.bind (ends_run fun broke => absurd broke Run.breaks_record)
                fun _ _ same => ?_
              obtain ⟨rfl, _⟩ := same
              exact ends_pure ⟨.back (ready.underway.mp member), .refl ready met⟩
          | some model =>
              have off : id ∉ path := fun back =>
                nomatch ModelTable.unique ready.distinct member (ready.underway.mpr back)
              exact ends_pure ⟨.shared off member, .refl ready met⟩
      | none =>
          have fresh := ModelTable.find?_eq_none.mp known
          have entered := ready.enter fresh reached
          have off : id ∉ path := (List.nodup_cons.mp entered.apart).1
          have opened : Ends faults (modify fun table => table ++ [(id, none)] : Build PUnit) table
              fun _ grown => table ++ [(id, none)] = grown := ends_modify rfl
          refine opened.bind fun _ _ same => ?_
          subst same
          have demanded (before fault after)
              (broke : Run.Breaks (liftM (world.schema id).demandCompiled) before fault after) :
              faults fault :=
            reckons.uncompiled reached (Run.breaks_lift.mp broke).1
          refine Ends.bind (ends_run (demanded _ _ _)) fun compiled _ same => ?_
          obtain ⟨rfl, before, after, declared⟩ := same
          have declared := Validation.demandCompiled_ok.mp (Run.yields_lift.mp declared).1
          have further : Arrives world root (id :: path) faults (modelTo world fuel) :=
            ih (by simpa [Nat.add_right_comm, Nat.add_assoc] using enough)
          have walked := fields_end further (reckons.deep reached declared)
            (fun field member _ refers => reached.tail ⟨compiled, field, declared, member, refers⟩)
            (fun _ member _ _ _ => reckons.standIn reached declared member) entered
          refine walked.bind fun entries grown done => ?_
          obtain ⟨walks, each, goes⟩ := done
          have met : id ∈ grown.ids := goes.grows (by simp)
          have finished : Ready world root path
              (grown.finish id ⟨nameFor (world.schema id).name, entries⟩) := by
            refine goes.ready.finish ⟨compiled, declared, rfl, each⟩ ?_
            rintro next ⟨other, field, same, member, refers⟩
            cases declared.symm.trans same
            exact goes.met ⟨field, member, refers⟩
          have changed : Ends faults (modify (ModelTable.finish id
              ⟨nameFor (world.schema id).name, entries⟩) : Build PUnit) grown
              fun _ last => grown.finish id ⟨nameFor (world.schema id).name, entries⟩ = last :=
            ends_modify rfl
          refine changed.bind fun _ _ same => ?_
          subst same
          refine ends_pure ⟨.built off fresh declared walks, finished, ?_, ?_⟩
          · rw [ModelTable.ids_finish]
            exact fun other member => goes.grows (by simp [member])
          · rintro _ rfl
            rwa [ModelTable.ids_finish]

end Walking

/-- What breaks where the default of a field is made that has one and whose sample is no record. -/
def BreaksDefault (world : World) (root : SchemaId) (fault : Fault) : Prop :=
  ∃ id compiled field before after, world.Reaches root id ∧
    (world.schema id).compiled = some compiled ∧ field ∈ compiled.fields ∧
    field.declaration.mode = .defaulted ∧ world.heap.isRecord field.sample = false ∧
    (field.type.standIn world.heap field.sample).Breaks before fault after

section Generation

variable {world : World} {root id : SchemaId} {model : Model} {field : Field} {plain : ModelType}
  {entry : ModelField} {compiled : Compiled}

theorem boundsOf_name {heap : Heap} {type : ModelType} {default : Option Value} :
    (boundsOf heap field type default).name = field.name := by
  unfold boundsOf
  split <;> rfl

theorem Describes.name {heap : Heap} (describes : Describes heap field plain entry) :
    entry.name = field.name := by
  cases describes <;> exact boundsOf_name

theorem IsModelOf.names (made : IsModelOf world id model)
    (declared : (world.schema id).compiled = some compiled) :
    model.fields.map (·.name) = compiled.fields.map (·.name) := by
  obtain ⟨_, same, _, each⟩ := made
  cases declared.symm.trans same
  have alike : List.Forall₂ (· = ·) (compiled.fields.map (·.name)) (model.fields.map (·.name)) := by
    rw [List.forall₂_map_left_iff, List.forall₂_map_right_iff]
    refine each.imp fun field entry described => ?_
    obtain ⟨plain, describes⟩ := described
    exact describes.name.symm
  rw [List.forall₂_eq_eq_eq] at alike
  exact alike.symm

theorem Ready.met_iff {table : ModelTable} (ready : Ready world root [] table)
    (begun : root ∈ table.ids) : id ∈ table.ids ↔ world.Reaches root id := by
  refine ⟨ready.reached, fun reached => ?_⟩
  induction reached with
  | refl => exact begun
  | tail _ refers ih =>
      obtain ⟨found, member⟩ := ModelTable.mem_ids.mp ih
      cases found with
      | none => cases ready.underway.mp member
      | some model => exact ready.closed member refers

/-- Models are built of a schema and of all that its samples lead to, each of them once and with an
entry for every field, or the generation breaks down where the default of a field cannot be made.
-/
theorem generate_walks (flat : world.heap.Flat) (unknotted : Unknotted world root)
    (known : AllCompiled world root) (before : Trace) :
    (∃ table after, (generate world root).Yields before (.model root, table) after ∧
      Walks world [] [] root (.model root) table ∧ table.ids.Nodup ∧
      (∀ id, id ∈ table.ids ↔ world.Reaches root id) ∧
      ∀ id found, (id, found) ∈ table → ∃ model compiled, found = some model ∧
        (world.schema id).compiled = some compiled ∧
        model.name = nameFor (world.schema id).name ∧
        model.fields.map (·.name) = compiled.fields.map (·.name)) ∨
    ∃ fault after, (generate world root).Breaks before fault after ∧
      BreaksDefault world root fault := by
  have reckons : Reckons world root (BreaksDefault world root) := by
    refine ⟨fun reached failed => ?_, .inr ⟨flat, unknotted, known⟩,
      fun reached declared member mode single broke =>
        ⟨_, _, _, _, _, reached, declared, member, mode, single, broke⟩⟩
    obtain ⟨compiled, declared⟩ := known _ reached
    rw [Schema.demandCompiled, declared] at failed
    cases failed
  have arrives : Arrives world root [] (BreaksDefault world root)
      (modelTo world (world.schemas.size + 1)) := modelTo_arrives reckons (.inr (by simp))
  rcases arrives .refl ready_empty before with ⟨type, table, after, yielded, walks, goes⟩ | broke
  · left
    have same : type = .model root := by
      cases walks with
      | back on => cases on
      | shared _ member => cases member
      | built _ _ _ _ => rfl
    subst same
    refine ⟨table, after, yielded, walks, goes.ready.distinct,
      fun id => goes.ready.met_iff (goes.met rfl), fun id found member => ?_⟩
    cases found with
    | none => cases goes.ready.underway.mp member
    | some model =>
        obtain ⟨compiled, declared, named, each⟩ := goes.ready.finished member
        have made : IsModelOf world id model := ⟨compiled, declared, named, each⟩
        exact ⟨model, compiled, rfl, declared, named, made.names declared⟩
  · exact .inr broke

end Generation

section OneSchema

variable {world : World} {root id : SchemaId} {compiled : Compiled}

theorem reaches_of_selfContained (contained : world.SelfContained (world.schema root) compiled)
    (reached : world.Reaches root id) : world.schema id = world.schema root := by
  induction reached with
  | refl => rfl
  | tail _ refers ih =>
      obtain ⟨_, field, declared, member, recordClass, stands, rfl⟩ := refers
      rw [ih] at declared
      cases contained.known.symm.trans declared
      exact (contained.classes field member recordClass stands).1

theorem allCompiled_of_selfContained
    (contained : world.SelfContained (world.schema root) compiled) : AllCompiled world root :=
  fun _ reached => ⟨compiled, reaches_of_selfContained contained reached ▸ contained.known⟩

theorem unknotted_of_bare
    (bare : ∀ shape ∈ world.heap.cells.toList, ∀ part ∈ shape.gathered, ∀ index,
      part ≠ .ref index) : Unknotted world root := by
  intro _ _ _ _ _ _ index _ circle
  obtain ⟨inner, leads, _⟩ := Relation.TransGen.head'_iff.mp circle
  rcases world.heap.mem_cells_or_null index with known | none
  · exact bare _ known _ leads inner rfl
  · rw [Heap.Leads, none] at leads
    cases leads

end OneSchema

/-- The model of nodes: both fields that lead back to nodes take any mapping. -/
theorem generate_walks_nodes :
    Nodes.world.heap.Flat ∧ Unknotted Nodes.world 1 ∧ AllCompiled Nodes.world 1 ∧
    ∃ table after, (generate Nodes.world 1).Yields [] (.model 1, table) after ∧
      Walks Nodes.world [] [] 1 (.model 1) table ∧ table.ids.Nodup ∧
      ∀ id, id ∈ table.ids ↔ Nodes.world.Reaches 1 id := by
  have flat : Nodes.world.heap.Flat := by
    apply Heap.flat_of_cells
    simp [Nodes.world, Nodes.heap, Value.parts, Value.Stored]
  have unknotted : Unknotted Nodes.world 1 := by
    apply unknotted_of_bare
    simp [Nodes.world, Nodes.heap, Value.gathered]
  have known : AllCompiled Nodes.world 1 := allCompiled_of_selfContained Nodes.selfContained
  have ended : ∃ table after, (generate Nodes.world 1).Yields [] (.model 1, table) after :=
    ⟨_, _, rfl⟩
  refine ⟨flat, unknotted, known, ?_⟩
  rcases generate_walks flat unknotted known [] with
    ⟨table, after, yielded, walks, distinct, met, _⟩ | ⟨fault, after, broke, _⟩
  · exact ⟨table, after, yielded, walks, distinct, met⟩
  · obtain ⟨_, _, yielded⟩ := ended
    exact absurd broke yielded.not_breaks

/-- Models of compiled schemas without circles of collections can always be built. -/
def AlwaysBuilt : Prop :=
  ∀ {world : World} {root : SchemaId}, world.heap.Flat → Unknotted world root →
    AllCompiled world root → ∀ before, ∃ table after,
      (generate world root).Yields before (.model root, table) after ∧
      ∀ id, id ∈ table.ids ↔ world.Reaches root id

/-- The default of a field is made when its model is built. A sample that holds a failure cannot be
copied, and no model is built. -/
theorem default_can_break : ¬ AlwaysBuilt := by
  intro always
  have flat : Posts.world.heap.Flat := by
    apply Heap.flat_of_cells
    simp [Posts.world, Posts.heap, Value.parts, Value.interleave, Value.Stored]
  have unknotted : Unknotted Posts.world 1 := by
    apply unknotted_of_bare
    simp [Posts.world, Posts.heap, Value.gathered]
  have contained : Posts.world.SelfContained (Posts.world.schema 1) (.of Posts.fields 0 (.ref 0)) :=
    Posts.selfContained
  have known : AllCompiled Posts.world 1 := allCompiled_of_selfContained contained
  have broke : ∃ after, (generate Posts.world 1).Breaks [] (.immutable "Fail") after := ⟨_, rfl⟩
  obtain ⟨table, after, yielded, _⟩ := always flat unknotted known []
  obtain ⟨_, broke⟩ := broke
  exact yielded.not_breaks broke

end Model

end Exemplar
