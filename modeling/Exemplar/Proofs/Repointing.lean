import Exemplar.Proofs.Sessions
import Exemplar.Proofs.OneByOne

/-!
Repointing a field of a schema. The field is compiled anew and takes the place of the old one before
the sample is changed. The sample of a schema is a record, which takes every attribute, unless the
hook made something else of it. Of all else, big integers and modes take some attributes and nothing
takes the rest; then repointing breaks down at its last step, and the schema has the new field with
the old sample.
-/

namespace Exemplar

namespace Heap

/-- The value is a record that is stored. -/
def StoresRecord (heap : Heap) (target : Value) : Prop :=
  ∃ index recordClass fields, target = .ref index ∧ heap.cell index = .record recordClass fields

/-- An attribute of that name can be set: on a stored record, or on a value that does not refuse
it. -/
def Takes (heap : Heap) (target : Value) (name : String) : Prop :=
  heap.StoresRecord target ∨ Session.refusal? (heap.look target) name = none

end Heap

namespace World

/-- The field compiled for a new sample, beside what the schema was compiled to before. -/
def recompile (world : World) (id : SchemaId) (name : String) (value : Value) :
    Run (Compiled × Field) := do
  let compiled ← (world.schema id).demandCompiled
  let old ← compiled.field name
  let field ← Field.compile (world.catalogue compiled.catalogue) world.heap name old.declaration
    value
  return (compiled, field)

/-- The world with a schema's field in the place of the one of the same name. -/
def exchange (world : World) (id : SchemaId) (compiled : Compiled) (field : Field) : World :=
  { world with
    schemas := world.schemas.modify id fun schema =>
      { schema with compiled := some (compiled.replace field) } }

/-- The world with a field of a record set, if it is a stored one. -/
def assign (world : World) (target : Value) (name : String) (value : Value) : World :=
  match target, world.heap.look target with
  | .ref index, .record recordClass fields =>
      { world with
        heap := world.heap.write index (.record recordClass (Named.set name value fields)) }
  | _, _ => world

theorem assign_record {world : World} {index : Nat} {recordClass : RecordClass}
    {fields : List (String × Value)} {name : String} {value : Value}
    (stored : world.heap.cell index = .record recordClass fields) :
    world.assign (.ref index) name value =
      { world with
        heap := world.heap.write index (.record recordClass (Named.set name value fields)) } := by
  simp only [assign, Heap.look_ref, stored]

theorem assign_schemas {world : World} {target value : Value} {name : String} :
    (world.assign target name value).schemas = world.schemas := by
  unfold assign
  split <;> rfl

theorem assign_of_bare {world : World} {target value : Value} {name : String}
    (bare : ¬ world.heap.StoresRecord target) : world.assign target name value = world := by
  unfold assign
  split
  next index recordClass fields shape => exact absurd ⟨index, recordClass, fields, rfl, shape⟩ bare
  next => rfl

end World

section Recompiling

variable {world : World} {id : SchemaId} {name : String} {value : Value} {compiled : Compiled}
  {field : Field} {before after : Trace}

theorem recompile_yields :
    (world.recompile id name value).Yields before (compiled, field) after ↔
      ∃ old, (world.schema id).compiled = some compiled ∧ compiled.field name = .ok old ∧
        (Field.compile (world.catalogue compiled.catalogue) world.heap name old.declaration
          value).Yields before field after := by
  simp only [World.recompile, Run.yields_bind, Run.yields_lift, Run.yields_pure, Prod.mk.injEq,
    Validation.demandCompiled_ok]
  constructor
  · intro found
    obtain ⟨_, _, ⟨known, rfl⟩, old, _, ⟨named, rfl⟩, _, _, made, ⟨rfl, rfl⟩, rfl⟩ := found
    exact ⟨old, known, named, made⟩
  · intro found
    obtain ⟨old, known, named, made⟩ := found
    exact ⟨_, _, ⟨known, rfl⟩, old, _, ⟨named, rfl⟩, _, _, made, ⟨rfl, rfl⟩, rfl⟩

end Recompiling

namespace Session

open Act

variable {before after : Session} {id : SchemaId} {name : String} {value target : Value}

theorem setAttribute_takes (takes : before.world.heap.Takes target name) :
    (setAttribute target name value).Ends before (.ok ())
      { before with world := before.world.assign target name value } := by
  refine ends_of_current.bind.trans ?_
  by_cases stores : before.world.heap.StoresRecord target
  · obtain ⟨index, recordClass, fields, rfl, stored⟩ := stores
    rw [World.assign_record stored, Heap.look_ref, stored]
    rfl
  · have accepted : refusal? (before.world.heap.look target) name = none :=
      takes.resolve_left stores
    rw [World.assign_of_bare stores]
    split
    next index recordClass fields shape =>
      exact absurd ⟨index, recordClass, fields, rfl, shape⟩ stores
    next =>
      rw [accepted]
      rfl

theorem setAttribute_refuses (bare : ¬ before.world.heap.Takes target name) :
    ∃ fault, (setAttribute target name value).Ends before (.error fault) before := by
  simp only [setAttribute, Ends, ends_of_current.bind]
  split
  next index recordClass fields shape =>
    exact absurd (.inl ⟨index, recordClass, fields, rfl, shape⟩) bare
  next =>
    split
    next fault _ => exact ⟨fault, rfl⟩
    next accepted => exact absurd (.inr accepted) bare

/-- What a repointing does once the field is compiled. -/
def exchangeField (id : SchemaId) (schema name : String) (value : Value) (compiled : Compiled)
    (field : Field) : Act Unit := do
  setCompiled id (compiled.replace field)
  setAttribute compiled.sample name value
  ofRun fun _ => Run.debug
    s!"Patched field '{name}' of schema '{schema}' to type '{field.type.name}'"

section Exchanging

variable {schema : String} {compiled : Compiled} {field : Field} {trace : Trace} {fault : Fault}

theorem repoint_of_yields
    (made : (before.world.recompile id name value).Yields before.trace (compiled, field) trace) :
    (repoint id name value).run.run before =
      (exchangeField id (before.world.schema id).name name value compiled field).run.run
        { before with trace } := by
  obtain ⟨old, known, named, compiles⟩ := recompile_yields.mp made
  have declared := Validation.demandCompiled_ok.mpr known
  have remade : (ofRun fun world => Field.compile (world.catalogue compiled.catalogue) world.heap
      name old.declaration value).Ends before (.ok field) { before with trace } :=
    ends_ofRun.mpr ⟨trace, compiles, rfl⟩
  exact ends_of_current.bind.trans ((ends_of_eq declared).bind.trans
    ((ends_of_eq named).bind.trans remade.bind))

theorem repoint_of_breaks
    (broke : (before.world.recompile id name value).Breaks before.trace fault trace) :
    (repoint id name value).Ends before (.error fault) { before with trace } := by
  simp only [World.recompile, Run.breaks_bind, Run.breaks_lift, Run.yields_lift, Run.breaks_pure,
    and_false, exists_false, or_false] at broke
  refine ends_of_current.bind.trans ?_
  rcases broke with ⟨undeclared, rfl⟩ | ⟨compiled, _, ⟨known, rfl⟩, ⟨unnamed, rfl⟩ |
    ⟨old, _, ⟨named, rfl⟩, broke⟩⟩
  · exact (ends_of_eq undeclared).bind_error
  · exact (ends_of_eq known).bind.trans (ends_of_eq unnamed).bind_error
  · have failed : (ofRun fun world => Field.compile (world.catalogue compiled.catalogue) world.heap
        name old.declaration value).Ends before (.error fault) { before with trace } :=
      ends_ofRun.mpr ⟨trace, broke, rfl⟩
    exact (ends_of_eq known).bind.trans ((ends_of_eq named).bind.trans failed.bind_error)

/-- The session with a field exchanged, before its sample is changed. -/
def exchanged (session : Session) (id : SchemaId) (compiled : Compiled) (field : Field) : Session :=
  { session with world := session.world.exchange id compiled field }

theorem exchangeField_takes (takes : before.world.heap.Takes compiled.sample name) :
    ∃ trace, (exchangeField id schema name value compiled field).Ends before (.ok ())
      ⟨(before.world.exchange id compiled field).assign compiled.sample name value, trace⟩ := by
  have placed : (setCompiled id (compiled.replace field)).Ends before (.ok ())
      (before.exchanged id compiled field) := ends_modify.mpr ⟨rfl, rfl⟩
  have still : (before.exchanged id compiled field).world.heap.Takes compiled.sample name := takes
  exact ⟨_, placed.bind.trans ((setAttribute_takes still).bind.trans rfl)⟩

theorem exchangeField_refuses (bare : ¬ before.world.heap.Takes compiled.sample name) :
    ∃ fault, (exchangeField id schema name value compiled field).Ends before (.error fault)
      (before.exchanged id compiled field) := by
  have placed : (setCompiled id (compiled.replace field)).Ends before (.ok ())
      (before.exchanged id compiled field) := ends_modify.mpr ⟨rfl, rfl⟩
  have untouched : ¬ (before.exchanged id compiled field).world.heap.Takes compiled.sample name :=
    bare
  obtain ⟨fault, refused⟩ := setAttribute_refuses untouched
  exact ⟨fault, placed.bind.trans refused.bind_error⟩

end Exchanging

/-- A repointing goes well where the field compiles for the new sample and the schema's sample takes
the attribute. -/
theorem repoint_succeeds (ended : (repoint id name value).Ends before (.ok ()) after) :
    ∃ compiled field trace last,
      (before.world.recompile id name value).Yields before.trace (compiled, field) trace ∧
      before.world.heap.Takes compiled.sample name ∧
      after = ⟨(before.world.exchange id compiled field).assign compiled.sample name value, last⟩ := by
  rcases (before.world.recompile id name value).yields_or_breaks before.trace with
    ⟨⟨compiled, field⟩, trace, made⟩ | ⟨fault, trace, broke⟩
  · have rest := (repoint_of_yields made).symm.trans ended
    by_cases takes : before.world.heap.Takes compiled.sample name
    · have takes : ({ before with trace } : Session).world.heap.Takes compiled.sample name := takes
      obtain ⟨last, ran⟩ := exchangeField_takes takes
      obtain ⟨_, rfl⟩ := Ends.unique rest ran
      exact ⟨compiled, field, trace, last, made, takes, rfl⟩
    · have bare : ¬ ({ before with trace } : Session).world.heap.Takes compiled.sample name := takes
      obtain ⟨fault, refused⟩ := exchangeField_refuses bare
      cases (Ends.unique rest refused).1
  · cases (Ends.unique ended (repoint_of_breaks broke)).1

theorem repoint_of_refused {compiled : Compiled} {field : Field} {trace : Trace}
    (made : (before.world.recompile id name value).Yields before.trace (compiled, field) trace)
    (bare : ¬ before.world.heap.Takes compiled.sample name) :
    ∃ fault, (repoint id name value).Ends before (.error fault)
      (({ before with trace } : Session).exchanged id compiled field) := by
  have untouched : ¬ ({ before with trace } : Session).world.heap.Takes compiled.sample name := bare
  obtain ⟨fault, refused⟩ := exchangeField_refuses untouched
  exact ⟨fault, (repoint_of_yields made).trans refused⟩

/-- A repointing breaks down with the compilation of its field, or after it at a sample that refuses
the attribute. -/
theorem repoint_fails {fault : Fault}
    (ended : (repoint id name value).Ends before (.error fault) after) :
    (∃ trace, (before.world.recompile id name value).Breaks before.trace fault trace ∧
      after = { before with trace }) ∨
    ∃ compiled field trace,
      (before.world.recompile id name value).Yields before.trace (compiled, field) trace ∧
      ¬ before.world.heap.Takes compiled.sample name ∧
      after = ({ before with trace } : Session).exchanged id compiled field := by
  rcases (before.world.recompile id name value).yields_or_breaks before.trace with
    ⟨⟨compiled, field⟩, trace, made⟩ | ⟨other, trace, broke⟩
  · by_cases takes : before.world.heap.Takes compiled.sample name
    · have takes : ({ before with trace } : Session).world.heap.Takes compiled.sample name := takes
      obtain ⟨last, ran⟩ := exchangeField_takes takes
      have rest := (repoint_of_yields made).symm.trans ended
      cases (Ends.unique rest ran).1
    · obtain ⟨other, refused⟩ := repoint_of_refused made takes
      obtain ⟨_, rfl⟩ := ended.unique refused
      exact .inr ⟨compiled, field, trace, made, takes, rfl⟩
  · obtain ⟨same, rfl⟩ := ended.unique (repoint_of_breaks broke)
    cases same
    exact .inl ⟨trace, broke, rfl⟩

/-- Where the schema's sample takes the attribute, as stored records always do, a repointing that
breaks down has changed nothing. Where it refuses the attribute, every repointing whose field
compiles for the new sample breaks down, and leaves the schema with the new field and the old
sample. -/
theorem repoint_atomic (session : Session) (id : SchemaId) (name : String) (value : Value) :
    (∀ compiled, (session.world.schema id).compiled = some compiled →
      session.world.heap.Takes compiled.sample name →
      ∀ fault after, (repoint id name value).Ends session (.error fault) after →
        after.world = session.world) ∧
    ∀ compiled field trace,
      (session.world.recompile id name value).Yields session.trace (compiled, field) trace →
      ¬ session.world.heap.Takes compiled.sample name →
      ∃ fault after, (repoint id name value).Ends session (.error fault) after ∧
        after.world = session.world.exchange id compiled field := by
  constructor
  · intro compiled known takes fault after ended
    rcases repoint_fails ended with ⟨trace, _, rfl⟩ | ⟨other, field, trace, made, bare, _⟩
    · rfl
    · obtain ⟨_, declared, _⟩ := recompile_yields.mp made
      cases known.symm.trans declared
      exact absurd takes bare
  · intro compiled field trace made bare
    obtain ⟨fault, refused⟩ := repoint_of_refused made bare
    exact ⟨fault, _, refused, rfl⟩

end Session

namespace Counts

open Session

/-- Counts by a configuration that knows big integers and nothing else. -/
def define : Act SchemaId := do
  let catalogue ← newCatalogue (Catalogue.add [] .bigInteger)
  let config ← newConfiguration { catalogue }
  defineSchema "Count" [0] [("n", .declared { sample := .bigInteger 1 })] (some config)

end Counts

/-- No type is there for a text, so a count cannot be pointed at one, and everything is as it was. -/
theorem repoint_atomic_counts :
    ∃ id session fault after,
      Counts.define.run.run Session.start = (.ok id, session) ∧
      (Session.repoint id "n" (.text "")).Ends session (.error fault) after ∧
      after.world = session.world := by
  refine ⟨1, _, .noType "''", _, rfl, rfl, ?_⟩
  exact (Session.repoint_atomic _ 1 "n" (.text "")).1 _ rfl (.inl ⟨_, _, _, rfl, rfl⟩) _ _ rfl

/-- Points whose sample the hook has made a pair of: pointing the field at a text breaks down, and
from then on points are read as texts. -/
theorem repoint_half_made :
    ∃ id session fault after value fail,
      (Points.define Points.wrapping none).run.run Session.start = (.ok id, session) ∧
      (Session.repoint id "x" (.text "")).Ends session (.error fault) after ∧
      (session.world.tryValidate (session.world.schema id) Points.point none).Yields [] (.ok value)
        [] ∧
      (after.world.tryValidate (after.world.schema id) Points.point none).Yields [] (.error fail)
        [] :=
  ⟨1, _, _, _, _, _, rfl, rfl, rfl, rfl⟩

end Exemplar
