import Exemplar.Proofs.Determinacy
import Exemplar.Proofs.MissingInput

/-!
A schema as the combination of its fields. A field by itself, in a schema that has no other, comes to
what it comes to among the others: nothing passes from one field to the next but the record that is
being filled. So the order of declarations settles the order of what is stored and of what is told,
and which failure comes first, and nothing else.
-/

namespace Exemplar

namespace Named

variable {α : Type} {entries others : Named α} {name : String}

theorem get?_eq_some_iff {value : α} (distinct : (names entries).Nodup) :
    get? name entries = some value ↔ (name, value) ∈ entries :=
  ⟨mem_of_get?, fun member => get?_of_mem distinct member⟩

theorem get?_of_perm (same : entries.Perm others) (distinct : (names entries).Nodup) :
    get? name entries = get? name others := by
  have still : (names others).Nodup := (List.Perm.map Prod.fst same).nodup_iff.mp distinct
  ext value
  rw [get?_eq_some_iff distinct, get?_eq_some_iff still, same.mem_iff]

end Named

namespace Run

variable {α β : Type} {action : Run α} {value : α} {early late : Trace}

theorem Adds.bind {next : α → Run β} {result : β} (first : action.Adds value early)
    (rest : (next value).Adds result late) : (action >>= next).Adds result (early ++ late) := by
  intro before
  rw [← List.append_assoc]
  exact (first before).bind.trans (rest (before ++ early))

theorem adds_pure : (pure value : Run α).Adds value [] := by
  intro before
  rw [List.append_nil]
  exact rfl

theorem Adds.map {change : α → β} (adds : action.Adds value early) :
    (change <$> action).Adds (change value) early :=
  fun before => yields_map.mpr ⟨value, adds before, rfl⟩

theorem Adds.unique {other : α} (adds : action.Adds value early) (same : action.Adds other late) :
    value = other :=
  ((adds []).unique (same [])).1

end Run

/-- The schema is compiled to this one field. -/
def Schema.HasOnly (schema : Schema) (field : Field) : Prop :=
  ∃ compiled, schema.compiled = some compiled ∧ compiled.fields = [field]

namespace Validation

variable {parse : Parse} {world : World} {config : Configuration} {location : String}
  {entries : List (Value × Value)}

theorem settleFields_cons {field : Field} {rest : List Field} {stored : Named Value} :
    settleFields parse world config location entries (field :: rest) stored = (do
      match ← settleFields parse world config location entries [field] stored with
      | .ok filled => settleFields parse world config location entries rest filled
      | .error fail => return .error fail) := by
  simp only [settleFields, bind_assoc]
  refine bind_congr fun outcome => ?_
  cases outcome <;> rfl

/-- What a field by itself adds to what is stored. -/
theorem settleFields_single {field : Field} {result : Except Failure (Named Value)} {told : Trace}
    (alone : (settleFields parse world config location entries [field] []).Adds result told)
    (stored : Named Value) :
    (settleFields parse world config location entries [field] stored).Adds
      (result.map (stored ++ ·)) told := by
  intro before
  have ran := alone before
  simp only [settleFields, Run.yields_bind] at ran ⊢
  obtain ⟨outcome, middle, guarded, ran⟩ := ran
  refine ⟨outcome, middle, guarded, ?_⟩
  cases outcome with
  | omitted | stored value | failed fail =>
      obtain ⟨rfl, rfl⟩ := Run.yields_pure.mp ran
      simp [Except.map]

/-- What fields come to one by one, each by itself. -/
def Singly (parse : Parse) (world : World) (config : Configuration) (location : String)
    (entries : List (Value × Value)) (fields : List Field)
    (result : Field → Except Failure (Named Value)) (told : Field → Trace) : Prop :=
  ∀ field ∈ fields, (settleFields parse world config location entries [field] []).Adds
    (result field) (told field)

variable {fields done rest : List Field} {field : Field} {fail : Failure}
  {result : Field → Except Failure (Named Value)} {told : Field → Trace}

/-- Fields that succeed one by one succeed together. -/
theorem Singly.together {held : Field → Named Value}
    (singly : Singly parse world config location entries fields result told)
    (succeed : ∀ field ∈ fields, result field = .ok (held field)) (stored : Named Value) :
    (settleFields parse world config location entries fields stored).Adds
      (.ok (stored ++ fields.flatMap held)) (fields.flatMap told) := by
  induction fields generalizing stored with
  | nil => simpa [settleFields] using Run.adds_pure
  | cons field rest ih =>
      obtain ⟨here, later⟩ := List.forall_mem_cons.mp singly
      obtain ⟨good, others⟩ := List.forall_mem_cons.mp succeed
      have first : (settleFields parse world config location entries [field] stored).Adds
          (.ok (stored ++ held field)) (told field) := by
        simpa [good, Except.map] using settleFields_single here stored
      rw [settleFields_cons, List.flatMap_cons, List.flatMap_cons, ← List.append_assoc]
      exact first.bind (ih later others (stored ++ held field))

/-- The first of the fields to fail by itself is what they fail for together. -/
theorem Singly.first_failure {held : Field → Named Value}
    (singly : Singly parse world config location entries (done ++ field :: rest) result told)
    (succeed : ∀ field ∈ done, result field = .ok (held field)) (fails : result field = .error fail)
    (stored : Named Value) :
    (settleFields parse world config location entries (done ++ field :: rest) stored).Adds
      (.error fail) ((done ++ [field]).flatMap told) := by
  induction done generalizing stored with
  | nil =>
      have only : (settleFields parse world config location entries [field] stored).Adds
          (.error fail) (told field) := by
        simpa [fails, Except.map] using settleFields_single (singly field (by simp)) stored
      have last : ([] ++ [field]).flatMap told = told field ++ [] := by simp
      rw [List.nil_append, settleFields_cons, last]
      exact only.bind Run.adds_pure
  | cons earlier done ih =>
      obtain ⟨here, later⟩ := List.forall_mem_cons.mp singly
      obtain ⟨good, others⟩ := List.forall_mem_cons.mp succeed
      have first : (settleFields parse world config location entries [earlier] stored).Adds
          (.ok (stored ++ held earlier)) (told earlier) := by
        simpa [good, Except.map] using settleFields_single here stored
      rw [List.cons_append, settleFields_cons]
      exact first.bind (ih later others (stored ++ held earlier))

/-- Determined fields come to something one by one. -/
theorem singly_of_obeys (parses : ParseObeys Run.determinacy parse)
    (hooks : config.Obeys Run.determinacy world.heap)
    (obey : ∀ field ∈ fields, field.Obeys Run.determinacy) :
    ∃ result told, Singly parse world config location entries fields result told := by
  have each (field : Field) (member : field ∈ fields) : ∃ result told,
      (settleFields parse world config location entries [field] []).Adds result told := by
    refine Run.Determined.adds ?_ fun _ _ _ => settleFields_breaks
    exact obeys_settleFields Run.contains_determinacy hooks parses (by simpa using obey field member)
  choose! result told singly using each
  exact ⟨result, told, singly⟩

/-- Without a hook on records, what is stored makes the record. -/
theorem validateWith_of_mapping {schema : Schema} {compiled : Compiled} {data : Value}
    (finishes : ∀ record, config.finisher.finish world.heap record = pure record)
    (known : schema.compiled = some compiled) (shape : world.heap.look data = .mapping entries) :
    validateWith parse world config schema location data =
      Except.map (.record schema.recordClass) <$>
        settleFields parse world config location entries compiled.fields [] := by
  have demanded : schema.demandCompiled = .ok compiled := demandCompiled_ok.mpr known
  simp only [validateWith, shape, demanded, map_eq_pure_bind, finishes]
  refine (pure_bind compiled _).trans (bind_congr fun result => ?_)
  cases result <;> rfl

section Objects

variable {schema : Schema} {compiled : Compiled} {data : Value} {held : Field → Named Value}

theorem Singly.built (finishes : ∀ record, config.finisher.finish world.heap record = pure record)
    (known : schema.compiled = some compiled) (shape : world.heap.look data = .mapping entries)
    (singly : Singly parse world config location entries compiled.fields result told)
    (succeed : ∀ field ∈ compiled.fields, result field = .ok (held field)) :
    (validateWith parse world config schema location data).Adds
      (.ok (.record schema.recordClass (compiled.fields.flatMap held)))
      (compiled.fields.flatMap told) := by
  rw [validateWith_of_mapping finishes known shape]
  exact (singly.together succeed []).map

theorem Singly.failed (finishes : ∀ record, config.finisher.finish world.heap record = pure record)
    (known : schema.compiled = some compiled) (shape : world.heap.look data = .mapping entries)
    (singly : Singly parse world config location entries compiled.fields result told)
    (order : compiled.fields = done ++ field :: rest)
    (succeed : ∀ earlier ∈ done, ∃ held, result earlier = .ok held)
    (fails : result field = .error fail) :
    (validateWith parse world config schema location data).Adds (.error fail)
      ((done ++ [field]).flatMap told) := by
  choose! held succeed using succeed
  rw [validateWith_of_mapping finishes known shape, order]
  rw [order] at singly
  exact (singly.first_failure succeed fails []).map

/-- Fields of which not all succeed have a first that fails. -/
theorem first_to_fail (failing : ¬ ∀ field ∈ fields, ∃ held, result field = .ok held) :
    ∃ done field rest fail, fields = done ++ field :: rest ∧
      (∀ earlier ∈ done, ∃ held, result earlier = .ok held) ∧ result field = .error fail := by
  induction fields with
  | nil => simp at failing
  | cons first later ih =>
      cases found : result first with
      | error fail => exact ⟨[], first, later, fail, rfl, by simp, found⟩
      | ok held =>
          have others : ¬ ∀ field ∈ later, ∃ held, result field = .ok held := fun all =>
            failing (List.forall_mem_cons.mpr ⟨⟨held, found⟩, all⟩)
          obtain ⟨done, field, rest, fail, rfl, succeed, fails⟩ := ih others
          exact ⟨first :: done, field, rest, fail, rfl,
            List.forall_mem_cons.mpr ⟨⟨held, found⟩, succeed⟩, fails⟩

theorem Singly.accepts_iff
    (finishes : ∀ record, config.finisher.finish world.heap record = pure record)
    (known : schema.compiled = some compiled) (shape : world.heap.look data = .mapping entries)
    (singly : Singly parse world config location entries compiled.fields result told) :
    (∃ value events, (validateWith parse world config schema location data).Adds (.ok value)
      events) ↔ ∀ field ∈ compiled.fields, ∃ held, result field = .ok held := by
  constructor
  · intro found
    obtain ⟨value, events, accepted⟩ := found
    by_contra failing
    obtain ⟨done, field, rest, fail, order, succeed, fails⟩ := first_to_fail failing
    cases accepted.unique (singly.failed finishes known shape order succeed fails)
  · intro succeed
    choose! held succeed using succeed
    exact ⟨_, _, singly.built finishes known shape succeed⟩

/-- What an object is accepted as holds what its fields store. -/
theorem Singly.stored_eq
    (finishes : ∀ record, config.finisher.finish world.heap record = pure record)
    (known : schema.compiled = some compiled) (shape : world.heap.look data = .mapping entries)
    (singly : Singly parse world config location entries compiled.fields result told)
    (succeed : ∀ field ∈ compiled.fields, result field = .ok (held field)) {stored : Named Value}
    {events : Trace} (accepted : (validateWith parse world config schema location data).Adds
      (.ok (.record schema.recordClass stored)) events) :
    stored = compiled.fields.flatMap held := by
  have same := accepted.unique (singly.built finishes known shape succeed)
  simpa using same

/-- Under every name at most one value is stored if no two fields share their name. -/
theorem nodup_of_together (singly : Singly parse world config location entries fields result told)
    (succeed : ∀ field ∈ fields, result field = .ok (held field))
    (distinct : (fields.map (·.name)).Nodup) : (Named.names (fields.flatMap held)).Nodup := by
  obtain ⟨more, same, inside⟩ := settleFields_names (singly.together succeed [] [])
  rw [List.nil_append, List.nil_append] at same
  rw [same]
  exact inside.nodup distinct

end Objects

end Validation

/-- How an object fares by a schema and by the schemas of its single fields, at the same place. -/
structure World.FieldByField (world : World) (config : Configuration) (schema : Schema)
    (compiled : Compiled) (part : Field → Schema) (location : String) (data : Value)
    (result : Field → Except Failure (Named Value)) (told : Field → Trace) : Prop where
  alone {field} : field ∈ compiled.fields →
    (world.validateAt config (part field) location data).Adds
      ((result field).map (.record (part field).recordClass)) (told field)
  /-- The schema succeeds if each field does, with what the fields store and tell in their order. -/
  built {held : Field → Named Value} :
    (∀ field ∈ compiled.fields, result field = .ok (held field)) →
    (world.validateAt config schema location data).Adds
      (.ok (.record schema.recordClass (compiled.fields.flatMap held)))
      (compiled.fields.flatMap told)
  /-- It fails for the first field to fail, after what was told up to there. -/
  failed {done field rest fail} : compiled.fields = done ++ field :: rest →
    (∀ earlier ∈ done, ∃ held, result earlier = .ok held) → result field = .error fail →
    (world.validateAt config schema location data).Adds (.error fail)
      ((done ++ [field]).flatMap told)
  accepts_iff :
    (∃ value events, (world.validateAt config schema location data).Adds (.ok value) events) ↔
      ∀ field ∈ compiled.fields, ∃ value events,
        (world.validateAt config (part field) location data).Adds (.ok value) events
  /-- In another order the same fields accept the same input. -/
  accepts_reordered {other reordered} : other.compiled = some reordered →
    reordered.fields.Perm compiled.fields →
    ((∃ value events, (world.validateAt config other location data).Adds (.ok value) events) ↔
      ∃ value events, (world.validateAt config schema location data).Adds (.ok value) events)
  /-- And they store the same. -/
  stored_reordered {other reordered stored moved events later} :
    other.compiled = some reordered → reordered.fields.Perm compiled.fields →
    (world.validateAt config schema location data).Adds (.ok (.record schema.recordClass stored))
      events →
    (world.validateAt config other location data).Adds (.ok (.record other.recordClass moved))
      later →
    moved.Perm stored ∧ ((compiled.fields.map (·.name)).Nodup →
      ∀ name, Named.get? name moved = Named.get? name stored)

namespace Nodes

/-- Nodes with these fields only. -/
def only (fields : List Field) : Schema := { schema with compiled := some (.of fields 0 (.ref 0)) }

def plainly : Configuration := { catalogue := 0 }

end Nodes

end Exemplar
