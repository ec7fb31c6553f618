import Exemplar.Proofs.Sharing

/-!
What runs hand out. Where a field has no input and gets its default, the record that is stored has an
object there that is new, or one that cannot change; tuples that hold what can change are the one
exception, as they are handed out as they are.
-/

namespace Exemplar

open Validation

/-- The hook answers with a record that has the same under the name. -/
def Finisher.KeepsField (finisher : Finisher) (name : String) : Prop :=
  ∀ heap recordClass fields before made after,
    (finisher.finish heap (.record recordClass fields)).Yields before made after →
    ∃ others, made = .record recordClass others ∧ Named.get? name others = Named.get? name fields

theorem Finisher.Keeps.keepsField {finisher : Finisher} (keeps : finisher.Keeps) (name : String) :
    finisher.KeepsField name :=
  fun _ _ fields _ _ _ finished => ⟨fields, keeps _ _ _ _ _ finished, rfl⟩

/-- A field with a default, of which all that decides it is stored. -/
structure Field.Lends (heap : Heap) (field : Field) : Prop extends field.Defaulted heap where
  known : ∀ value ∈ field.values, ∀ index, heap.Spans value index → index < heap.cells.size

/-- If the sample is a tuple, which is not copied, then nothing that it leads to can change. -/
def Heap.FixedIfTuple (heap : Heap) (sample : Value) : Prop :=
  ∀ elements, heap.look sample = .tuple elements →
    ∀ index, heap.Spans sample index → (heap.cell index).changeable = false

section Fresh

variable {heap origin : Heap} {own : Nat → Prop} {value sample : Value} {field : Field}
  {path : String} {index : Nat}

/-- A sample that cannot change and is no collection leads to nothing that can: it is a tuple, or
has no parts. -/
theorem Heap.FixedIfTuple.spans (tuples : heap.FixedIfTuple sample)
    (fixed : (heap.look sample).changeable = false) (bare : heap.gathering? sample = none)
    (stored : sample.Stored) (spans : heap.Spans sample index) :
    (heap.cell index).changeable = false := by
  cases spans with
  | ref => exact fixed
  | copy => exact stored.elim
  | within member spans =>
      cases shape : heap.look sample with
      | tuple elements => exact tuples elements shape index (.within member spans)
      | _ => simp_all [Value.parts, Value.changeable, Heap.gathering?]

namespace Field.Lends

/-- What becomes of the field is stored as an object that is new, or cannot change. -/
theorem spares_placed (lends : field.Lends origin) (tuples : origin.FixedIfTuple field.sample)
    (becomes : field.Becomes origin path (.stored value))
    (owned : ∀ index, own index → index < origin.cells.size)
    (grown : origin.cells.size ≤ heap.cells.size) (agrees : origin.Agrees heap field.sample)
    (flat : heap.Flat) : (heap.place value).2.Spares own (heap.place value).1 := by
  have before : ∀ index, own index → index < heap.cells.size :=
    fun index mine => Nat.lt_of_lt_of_le (owned index mine) grown
  obtain ⟨_, _, stood⟩ := becomes.stood
  rcases lends.compiled.typed.stands lends.single stood with
    ⟨kind, rfl⟩ | rfl | ⟨rfl, fixed, bare⟩
  · exact .of_fresh before fun _ => Heap.spans_placed_wrap_nil
  -- A copy is written out to fresh cells; a sample that is no object is its own copy.
  · have stored := lends.stored
    by_cases object : ∃ cell, field.sample = .ref cell
    · obtain ⟨cell, same⟩ := object
      rw [same]
      exact .of_fresh before fun _ => Heap.spans_placed_copy flat
    · have plain (cell : Nat) : field.sample ≠ .ref cell := fun same => object ⟨cell, same⟩
      rw [Heap.copied_of_plain stored plain, Heap.place_of_stored stored]
      exact .of_plain stored plain
  · rw [Heap.place_of_stored lends.stored]
    intro index spans
    have there := agrees.spans_iff.mp spans
    have known := lends.known _ List.mem_cons_self _ there
    refine ⟨Nat.lt_of_lt_of_le known grown, fun _ => ?_⟩
    rw [agrees _ there]
    exact tuples.spans fixed bare lends.stored there

end Field.Lends

end Fresh

namespace Session

variable {before after : Session} {schema : Schema} {data : Value}
  {named : Option ConfigurationId} {result : Except Fault Outcome}

/-- The schema is run on the data, and the record that comes of it is stored. -/
def runStored (schema : Schema) (data : Value) (named : Option ConfigurationId) : Act Outcome := do
  match ← Act.ofRun fun world => world.tryValidate schema data named with
  | .ok record => return .ok (← Act.place record)
  | .error fail => return .error fail

/-- A run leaves the objects that there are as they are; more may be stored. -/
theorem runStored_ends (ended : (runStored schema data named).Ends before result after) :
    (∃ record trace, (before.world.tryValidate schema data named).Yields before.trace (.ok record)
        trace ∧ result = .ok (.ok (before.world.heap.place record).1) ∧
      after.world.heap = (before.world.heap.place record).2) ∨
    (∀ record, result ≠ .ok (.ok record)) ∧ after.world = before.world := by
  rcases Act.ends_bind.mp ended with ⟨outcome, middle, ran, ended⟩ | ⟨fault, broke, failed⟩
  · obtain ⟨trace, yielded, rfl⟩ := Act.ends_ofRun.mp ran
    cases outcome with
    | error fail =>
        obtain ⟨rfl, rfl⟩ := Act.ends_pure.mp ended
        exact .inr ⟨nofun, rfl⟩
    | ok record =>
        rcases Act.ends_bind.mp ended with ⟨_, _, placed, ended⟩ | ⟨_, broke, _⟩
        · obtain ⟨same, rfl⟩ := Act.ends_place.mp placed
          cases same
          obtain ⟨rfl, rfl⟩ := Act.ends_pure.mp ended
          exact .inl ⟨record, trace, yielded, rfl, rfl⟩
        · cases (Act.ends_place.mp broke).1
  · obtain ⟨_, _, rfl⟩ := Act.ends_ofRun.mp broke
    rw [failed]
    exact .inr ⟨nofun, rfl⟩

theorem runStored_grows (flat : before.world.heap.Flat)
    (ended : (runStored schema data named).Ends before result after) :
    before.world.heap.Grows after.world.heap ∧ after.world.heap.Flat := by
  rcases runStored_ends ended with ⟨record, _, _, _, heap⟩ | ⟨_, same⟩
  · rw [heap]
    exact ⟨Heap.Grows.place record (.refl _), (Heap.Flat.place record flat).2⟩
  · rw [same]
    exact ⟨.refl _, flat⟩

/-- The configuration that governs a run of the schema. -/
def governing (session : Session) (schema : Schema) (named : Option ConfigurationId) :
    Configuration :=
  session.world.config (session.world.governing schema named)

def call (session : Session) (schema : Schema) (data : Value) : Call :=
  ⟨limit session.world data, schema, "", data, session.trace⟩

/-- A run of the session comes to the field and has no input for it. -/
abbrev Misses (session : Session) (schema : Schema) (field : Field) (data : Value)
    (named : Option ConfigurationId) (visit : Visit) : Prop :=
  Exemplar.Misses session.world (session.governing schema named) schema field
    (session.call schema data) visit

/-- What a run of the session makes of the field that it has no input for. It fails if the field
does; else the field is stored, and any record that comes of the run has it. -/
inductive Gives (session : Session) (schema : Schema) (field : Field) (data : Value)
    (named : Option ConfigurationId) (visit : Visit) : FieldOutcome → Prop
  | failed {fail middle after} :
      (visit.guarded session.world (session.governing schema named)).Yields visit.before
        (.failed fail) middle →
      (session.world.tryValidate schema data named).Yields session.trace (.error fail) after →
      Gives session schema field data named visit (.failed fail)
  | stored {value middle} :
      (visit.guarded session.world (session.governing schema named)).Yields visit.before
        (.stored value) middle →
      ((session.governing schema named).finisher.KeepsField field.name →
        ∀ record after,
          (session.world.tryValidate schema data named).Yields session.trace (.ok record) after →
          ∃ fields, record = .record schema.recordClass fields ∧
            Named.get? field.name fields = some value) →
      Gives session schema field data named visit (.stored value)

end Session

section Defaulting

variable {session : Session} {schema : Schema} {compiled : Compiled} {field : Field} {data : Value}
  {named : Option ConfigurationId} {visit : Visit} {outcome : FieldOutcome} {origin : Heap}

/-- Where the same is held of what decides it, a run gives the default that is fixed for the
field. -/
theorem Field.Lends.gives (lends : field.Lends origin) (known : schema.compiled = some compiled)
    (distinct : (compiled.fields.map (·.name)).Nodup)
    (agrees : ∀ value ∈ field.values, origin.Agrees session.world.heap value)
    (misses : session.Misses schema field data named visit)
    (becomes : field.Becomes origin visit.path outcome) :
    session.Gives schema field data named visit outcome := by
  obtain ⟨middle, guarded⟩ := lends.guarded agrees misses becomes
  cases outcome with
  | omitted => exact absurd becomes Field.Becomes.not_omitted
  | failed fail => exact .failed guarded (misses.reaches.fails guarded)
  | stored value =>
      refine .stored guarded fun keeps record after ran => ?_
      obtain ⟨fields, _, filled, finished⟩ := misses.reaches.finished known ran
      obtain ⟨others, rfl, same⟩ := keeps _ _ _ _ _ _ finished
      obtain ⟨_, stored⟩ := misses.reaches.shows known guarded filled
      obtain ⟨_, rfl, inside⟩ := settleFields_names filled
      refine ⟨others, rfl, ?_⟩
      rw [same, ← misses.visited]
      exact Named.get?_of_mem (inside.nodup distinct) (stored value rfl)

end Defaulting

/-- A run that had no input for a watched field handed out the value: it stands under the name of
the field in the record that came of the run. -/
inductive HandsOut (schema : Schema) (watched : Field → Prop) (data : Value)
    (named : Option ConfigurationId) (before after : Session) : Except Fault Outcome → Value → Prop
  | intro {index field visit fields value} : watched field →
      before.Misses schema field data named visit →
      (before.governing schema named).finisher.KeepsField field.name →
      after.world.heap.cell index = .record schema.recordClass fields →
      Named.get? field.name fields = some value →
      HandsOut schema watched data named before after (.ok (.ok (.ref index))) value

end Exemplar
