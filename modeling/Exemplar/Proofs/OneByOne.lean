import Exemplar.Proofs.Depth
import Exemplar.Proofs.Leniency

/-!
Lists of objects. Where a schema's sample is a record of the schema and no type but that of records
claims it, validating a list comes to the same as validating its elements one after the other, each
at its own place, up to the first that fails. Where the sample is anything else, or another type
claims it, the elements are taken for something else.
-/

namespace Exemplar

namespace Validation

/-- The elements are validated one after the other, from a position on: their values, or the failure
of the first that fails. -/
inductive InTurn (world : World) (config : Configuration) (schema : Schema) :
    Nat → List Value → Trace → Except Failure (List Value) → Trace → Prop
  | done {position trace} : InTurn world config schema position [] trace (.ok []) trace
  | passed {position item rest before value middle result after} :
      (world.validateAt config schema (elementPath "" position) item).Yields before (.ok value)
        middle →
      InTurn world config schema (position + 1) rest middle result after →
      InTurn world config schema position (item :: rest) before (result.map (value :: ·)) after
  | failed {position item rest before fail after} :
      (world.validateAt config schema (elementPath "" position) item).Yields before (.error fail)
        after →
      InTurn world config schema position (item :: rest) before (.error fail) after

/-- From this depth on it does not matter how deep a run may go into the data. -/
def Fathomed (world : World) (config : Configuration) (schema : Schema) (location : String)
    (data : Value) (depth : Nat) : Prop :=
  ∀ more, depth ≤ more → validateTo world config more schema location data =
    validateTo world config depth schema location data

variable {world : World} {config : Configuration} {schema : Schema} {compiled : Compiled}
  {location : String} {data item : Value} {before after : Trace}

theorem Fathomed.eq {depth one other : Nat}
    (fathomed : Fathomed world config schema location data depth) (first : depth ≤ one)
    (second : depth ≤ other) :
    validateTo world config one schema location data =
      validateTo world config other schema location data :=
  (fathomed one first).trans (fathomed other second).symm

theorem Fathomed.of_record {depth : Nat} (record : IsRecordOf world schema data) :
    Fathomed world config schema location data depth := by
  obtain ⟨recordClass, fields, shape, below⟩ := record
  intro more _
  simp [validateTo, validateWith, shape, below]

theorem Fathomed.of_within {levels depth : Nat} (builtIn : world.BuiltIn schema)
    (keeps : ∀ {used compiled field}, world.Uses schema used → used.compiled = some compiled →
      field ∈ compiled.fields → KeepsInput world.heap field)
    (within : world.heap.Within levels data) (enough : levels ≤ depth) :
    Fathomed world config schema location data depth := by
  intro more deeper
  exact validateTo_settles builtIn .root keeps (within.mono enough) deeper

/-- The depths of a list and of an element suffice for the element, unless it goes round in
circles. -/
theorem Fathomed.of_list {levels : Nat} {items : List Value} (builtIn : world.BuiltIn schema)
    (keeps : ∀ {used compiled field}, world.Uses schema used → used.compiled = some compiled →
      field ∈ compiled.fields → KeepsInput world.heap field)
    (shape : world.heap.look data = .list items) (member : item ∈ items)
    (within : world.heap.Within levels item) :
    Fathomed world config schema location item (min (limit world data - 2) (limit world item)) := by
  have inside : world.heap.Within (world.heap.depth + data.depth - 1) item :=
    within.bounded_in (by rwa [shape])
  rcases Nat.le_total (limit world data - 2) (limit world item) with less | more
  · refine .of_within builtIn keeps inside ?_
    rw [Nat.min_eq_left less]
    simp only [limit, Heap.reach]
    omega
  · refine .of_within builtIn keeps within.bounded ?_
    rw [Nat.min_eq_right more]
    simp only [limit, Heap.reach]
    omega

/-- What a list of objects can hold: mappings, and records of the schema. -/
def IsObject (world : World) (schema : Schema) (item : Value) : Prop :=
  (∃ entries, world.heap.look item = .mapping entries) ∨ IsRecordOf world schema item

/-- Compiled with a sample that is a record of the schema itself, which the type of records is the
first to claim. -/
structure SampledByRecord (world : World) (schema : Schema) (compiled : Compiled) : Prop where
  known : schema.compiled = some compiled
  own : world.schema schema.recordClass.number = schema
  record : ∃ fields, world.heap.look compiled.sample = .record schema.recordClass fields
  first : ∃ higher lower, world.catalogue compiled.catalogue = higher ++ .record :: lower ∧
    ∀ type ∈ higher, ∀ before, (type.suits world.heap compiled.sample).Yields before false before

theorem find_of_not_suits {heap : Heap} {sample : Value} {higher rest : Catalogue}
    (foreign : ∀ type ∈ higher, ∀ before, (type.suits heap sample).Yields before false before) :
    (Catalogue.find? heap sample (higher ++ rest)).run.run before =
      (Catalogue.find? heap sample rest).run.run before := by
  induction higher with
  | nil => rfl
  | cons type higher ih =>
      have skipped := foreign type (by simp) before
      rw [List.cons_append, Catalogue.find?, skipped.bind]
      exact ih fun other member => foreign other (List.mem_cons_of_mem type member)

theorem SampledByRecord.resolves (sampled : SampledByRecord world schema compiled) :
    ((world.catalogue compiled.catalogue).resolve world.heap compiled.sample).Yields before .record
      before := by
  obtain ⟨fields, shape⟩ := sampled.record
  obtain ⟨higher, lower, order, foreign⟩ := sampled.first
  have found : (Catalogue.find? world.heap compiled.sample (higher ++ .record :: lower)).Yields
      before (some .record) before := by
    refine (find_of_not_suits foreign).trans ?_
    simp only [Catalogue.find?, ValueType.suits, shape]
    rfl
  rw [order]
  exact found.bind.trans rfl

theorem SampledByRecord.bound (sampled : SampledByRecord world schema compiled) :
    ((world.catalogue compiled.catalogue).bind world.heap (.unbound .array)
      (.list [compiled.sample])).Yields before (.bound .array .record) before := by
  have first : (Collection.array.first world.heap (.list [compiled.sample])).Yields before
      (some compiled.sample) before := rfl
  have depth : world.heap.depth + (Value.list [compiled.sample]).depth =
      world.heap.depth + Value.depthOfAll [compiled.sample] + 1 := rfl
  have inner : ((world.catalogue compiled.catalogue).bindTo world.heap
      (world.heap.depth + (Value.list [compiled.sample]).depth) .record compiled.sample).Yields
        before .record before := by
    rw [depth]
    rfl
  exact first.bind.trans (sampled.resolves.bind.trans (inner.bind.trans rfl))

/-- What an element of a list makes of the list so far, told by its own validation. -/
theorem parseItem_of_object (sampled : SampledByRecord world schema compiled)
    (object : IsObject world schema item) (strict : config.lenient = false) (limit : Nat)
    (place : String) (gathered : List Value) (before : Trace) :
    (parseItem (parseTo world config (limit + 1)) world.heap config .array .record compiled.sample
      place (.list gathered) item).run.run before =
    (do
      match ← validateTo world config limit schema place item with
      | .ok value => return .ok (.list (gathered ++ [value]))
      | .error fail => return .error fail : Run Outcome).run.run before := by
  obtain ⟨fields, shape⟩ := sampled.record
  rcases object with ⟨entries, mapping⟩ | ⟨recordClass, stored, record, below⟩
  · have fit : (ValueType.record.fit world.heap item compiled.sample).Yields before .toParse
        before := by
      simp [ValueType.fit, shape, mapping, Value.isInstanceOf]
    have parsed : parseTo world config (limit + 1) .record place compiled.sample item =
        validateTo world config limit schema place item := by
      simp only [parseTo, parseObject_of_record shape, sampled.own, validateTo]
    refine fit.bind.trans ?_
    simp only [parsed, strict]
    rcases (validateTo world config limit schema place item).yields_or_breaks before with
      ⟨outcome, middle, ran⟩ | ⟨fault, middle, broke⟩
    · rw [ran.bind, ran.bind]
      cases outcome <;> rfl
    · exact broke.bind.trans (Eq.symm broke.bind)
  · have fit : (ValueType.record.fit world.heap item compiled.sample).Yields before .settled
        before := by
      simp [ValueType.fit, shape, record, Value.isInstanceOf, below]
    have settled : (validateTo world config limit schema place item).Yields before (.ok item)
        before := by
      simp [validateTo, validateWith, record, below]
    rw [settled.bind]
    exact fit.bind.trans rfl

theorem validateAt_yields (known : schema.compiled = some compiled)
    (finishes : ∀ record before fault after,
      ¬ (config.finisher.finish world.heap record).Breaks before fault after)
    (location : String) (data : Value) (before : Trace) :
    ∃ outcome after,
      (world.validateAt config schema location data).Yields before outcome after := by
  rcases (world.validateAt config schema location data).yields_or_breaks before with ended |
    ⟨fault, after, broke⟩
  · exact ended
  · cases validateWith_breaks.mp broke with
    | uncompiled _ undeclared => simp [Schema.demandCompiled, known] at undeclared
    | field _ _ _ _ broke => exact absurd broke guardField_breaks
    | finish _ _ _ raised => exact absurd raised (finishes _ _ _ _)

theorem parseElements_in_turn {limit : Nat} {items : List Value}
    (sampled : SampledByRecord world schema compiled)
    (objects : ∀ item ∈ items, IsObject world schema item) (strict : config.lenient = false)
    (finishes : ∀ record before fault after,
      ¬ (config.finisher.finish world.heap record).Breaks before fault after)
    (deep : ∀ item ∈ items, ∀ place, Fathomed world config schema place item
      (min limit (Validation.limit world item)))
    (position : Nat) (gathered : List Value) (before : Trace) :
    ∃ result after, InTurn world config schema position items before result after ∧
      (parseElements (parseTo world config (limit + 1)) world.heap config .array .record
        compiled.sample "" position (.list gathered) items).Yields before
          (result.map fun values => .list (gathered ++ values)) after := by
  induction items generalizing position gathered before with
  | nil => exact ⟨.ok [], before, .done, by simp [parseElements, Except.map]⟩
  | cons item rest ih =>
      have later : ∀ other ∈ rest, IsObject world schema other :=
        fun other member => objects other (List.mem_cons_of_mem item member)
      have deeper : ∀ other ∈ rest, ∀ place, Fathomed world config schema place other
          (min limit (Validation.limit world other)) :=
        fun other member => deep other (List.mem_cons_of_mem item member)
      obtain ⟨outcome, middle, ran⟩ := validateAt_yields sampled.known finishes
        (elementPath "" position) item before
      -- In the list the item has the list's depth to go, on its own it has its own.
      have same : validateTo world config limit schema (elementPath "" position) item =
          world.validateAt config schema (elementPath "" position) item :=
        (deep item (by simp) _).eq (Nat.min_le_left _ _) (Nat.min_le_right _ _)
      have made := parseItem_of_object sampled (objects item (by simp)) strict limit
        (elementPath "" position) gathered before
      rw [same, ran.bind] at made
      rw [parseElements_cons]
      cases outcome with
      | error fail =>
          refine ⟨.error fail, middle, .failed ran, ?_⟩
          have failed : (parseItem (parseTo world config (limit + 1)) world.heap config .array
              .record compiled.sample (elementPath "" position) (.list gathered) item).Yields
                before (.error fail) middle := made
          exact failed.bind.trans rfl
      | ok value =>
          have added : (parseItem (parseTo world config (limit + 1)) world.heap config .array
              .record compiled.sample (elementPath "" position) (.list gathered) item).Yields
                before (.ok (.list (gathered ++ [value]))) middle := made
          obtain ⟨result, after, turn, passed⟩ := ih later deeper (position + 1)
            (gathered ++ [value]) middle
          refine ⟨_, after, .passed ran turn, ?_⟩
          refine added.bind.trans (passed.trans ?_)
          cases result <;> simp [Except.map]

theorem InTurn.unique {position : Nat} {items : List Value}
    {one other : Except Failure (List Value)} {left right : Trace}
    (first : InTurn world config schema position items before one left)
    (second : InTurn world config schema position items before other right) :
    one = other ∧ left = right := by
  induction first generalizing other right with
  | done =>
      cases second with
      | done => exact ⟨rfl, rfl⟩
  | passed ran _ ih =>
      cases second with
      | passed again turn =>
          obtain ⟨same, rfl⟩ := ran.unique again
          cases same
          obtain ⟨rfl, rfl⟩ := ih turn
          exact ⟨rfl, rfl⟩
      | failed again => cases (ran.unique again).1
  | failed ran =>
      cases second with
      | passed again _ => cases (ran.unique again).1
      | failed again =>
          obtain ⟨same, rfl⟩ := ran.unique again
          cases same
          exact ⟨rfl, rfl⟩

theorem limit_eq_add_two (world : World) (data : Value) :
    limit world data = limit world data - 2 + 2 := by
  simp only [limit, Heap.reach]
  omega

/-- Parsing a list goes two levels down to the objects in it. -/
theorem validateList_eq {items : List Value} {named : Option ConfigurationId}
    (sampled : SampledByRecord world schema compiled) (shape : world.heap.look data = .list items)
    (before : Trace) :
    (world.validateList schema data named).run.run before =
      (parseElements (parseTo world (world.config (world.governing schema named))
          (limit world data - 2 + 1)) world.heap (world.config (world.governing schema named)) .array
          .record compiled.sample "" 0 (.list []) items >>= World.demand).run.run before := by
  have declared : (liftM schema.demandCompiled : Run Compiled).Yields before compiled before :=
    Run.yields_of_ok (demandCompiled_ok.mpr sampled.known)
  have first : (Collection.array.first world.heap (.list [compiled.sample])).Yields before
      (some compiled.sample) before := rfl
  have listed : world.heap.iterate data = .ok items := by
    simp [Heap.iterate, Heap.elements?, shape]
  have empty : Collection.array.empty.Yields before (.list []) before := rfl
  have opened : (parseTo world (world.config (world.governing schema named)) (limit world data)
      (.bound .array .record) "" (.list [compiled.sample]) data).run.run before =
      (parseElements (parseTo world (world.config (world.governing schema named))
          (limit world data - 2 + 1)) world.heap (world.config (world.governing schema named)) .array
          .record compiled.sample "" 0 (.list []) items).run.run before := by
    rw [limit_eq_add_two, OfCollection.bound.parseTo_eq, parseCollection_eq]
    refine empty.bind.trans (first.bind.trans ?_)
    exact (Run.yields_of_ok listed).bind
  simp only [World.validateList, shape]
  refine declared.bind.trans (sampled.bound.bind.trans ?_)
  simp only [ExceptT.run_bind, StateT.run_bind, opened]

end Validation

open Validation in
/-- A list of objects under a strict configuration comes to the values of its elements, each
validated by itself, one after the other; if one of them fails, the first to fail is what the list
is rejected for. -/
theorem validateList_in_turn {world : World} {schema : Schema} {compiled : Compiled}
    {data : Value} {items : List Value} {named : Option ConfigurationId} {config : Configuration}
    (sampled : SampledByRecord world schema compiled) (shape : world.heap.look data = .list items)
    (objects : ∀ item ∈ items, IsObject world schema item)
    (governed : world.config (world.governing schema named) = config)
    (strict : config.lenient = false)
    (finishes : ∀ record before fault after,
      ¬ (config.finisher.finish world.heap record).Breaks before fault after)
    (deep : ∀ item ∈ items, ∀ place, Fathomed world config schema place item
      (min (limit world data - 2) (limit world item)))
    (before : Trace) :
    (∃ result after, InTurn world config schema 0 items before result after) ∧
    (∀ values after, InTurn world config schema 0 items before (.ok values) after →
      (world.validateList schema data named).Yields before (.list values) after) ∧
    ∀ fail after, InTurn world config schema 0 items before (.error fail) after →
      (world.validateList schema data named).Breaks before (.rejected fail) after := by
  subst governed
  obtain ⟨result, last, turn, parsed⟩ := parseElements_in_turn sampled objects strict finishes deep
    0 [] before
  refine ⟨⟨result, last, turn⟩, ?_, ?_⟩
  · intro values after found
    obtain ⟨rfl, rfl⟩ := turn.unique found
    exact (validateList_eq sampled shape before).trans (parsed.bind.trans rfl)
  · intro fail after found
    obtain ⟨rfl, rfl⟩ := turn.unique found
    exact (validateList_eq sampled shape before).trans (parsed.bind.trans rfl)

namespace Nodes

def strictly : World := { world with configs := #[{ lenient := false, catalogue := 0 }] }

/-- A node without tags. -/
def untagged : Value := .mapping [(.text "value", .text "a")]

theorem uses_of_strictly {used : Schema} (reached : strictly.Uses schema used) :
    world.Uses schema used := by
  induction reached with
  | root => exact .root
  | field _ known member stands ih => exact .field ih known member stands

theorem strictly_builtIn : strictly.BuiltIn schema where
  compiled reached := builtIn.compiled (uses_of_strictly reached)
  fields reached := builtIn.fields (uses_of_strictly reached)
  classes reached := builtIn.classes (uses_of_strictly reached)

theorem keepsInput {used : Schema} {compiled : Compiled} {field : Field}
    (reached : strictly.Uses schema used) (known : used.compiled = some compiled)
    (member : field ∈ compiled.fields) : Validation.KeepsInput strictly.heap field :=
  .inr (.inl (of_fields without_fallback (uses_of_strictly reached) known member))

theorem within_pair : strictly.heap.Within 4 pair := by
  simp [Heap.Within, Heap.look, pair, Value.parts, Value.interleave]

theorem within_untagged : strictly.heap.Within 2 untagged := by
  simp [Heap.Within, Heap.look, untagged, Value.parts, Value.interleave]

theorem sampled : Validation.SampledByRecord strictly schema (.of fields 0 (.ref 0)) where
  known := rfl
  own := rfl
  record := ⟨_, rfl⟩
  first := by
    refine ⟨[.unbound .set, .unbound .array], [.primitive .fallback], rfl, ?_⟩
    intro type member before
    simp only [List.mem_cons, List.not_mem_nil, or_false] at member
    rcases member with rfl | rfl <;> rfl

end Nodes

/-- A node, the sample itself and a node without tags: the list is rejected for the third. -/
theorem validateList_in_turn_nodes :
    (Nodes.strictly.validateList Nodes.schema (.list [Nodes.pair, .ref 0, Nodes.untagged])
      none).Breaks [] (.rejected (.missing "[2].tags")) [] := by
  have first : ∃ value, (Nodes.strictly.validateAt (Nodes.strictly.config 0) Nodes.schema
      (Validation.elementPath "" 0) Nodes.pair).Yields [] (.ok value) [] := ⟨_, rfl⟩
  have second : (Nodes.strictly.validateAt (Nodes.strictly.config 0) Nodes.schema
      (Validation.elementPath "" 1) (.ref 0)).Yields [] (.ok (.ref 0)) [] := rfl
  have third : (Nodes.strictly.validateAt (Nodes.strictly.config 0) Nodes.schema
      (Validation.elementPath "" 2) Nodes.untagged).Yields [] (.error (.missing "[2].tags")) [] :=
    rfl
  obtain ⟨value, first⟩ := first
  have turn : Validation.InTurn Nodes.strictly (Nodes.strictly.config 0) Nodes.schema 0
      [Nodes.pair, .ref 0, Nodes.untagged] [] (.error (.missing "[2].tags")) [] :=
    (Validation.InTurn.passed first (.passed second (.failed third)) :)
  refine (validateList_in_turn Nodes.sampled rfl ?_ rfl rfl ?_ ?_ []).2.2 _ _ turn
  · intro item member
    simp only [List.mem_cons, List.not_mem_nil, or_false] at member
    rcases member with rfl | rfl | rfl
    · exact .inl ⟨_, rfl⟩
    · exact .inr ⟨_, _, rfl, rfl⟩
    · exact .inl ⟨_, rfl⟩
  · intro record before fault after
    exact Run.breaks_pure
  · intro item member place
    simp only [List.mem_cons, List.not_mem_nil, or_false] at member
    rcases member with rfl | rfl | rfl
    · exact .of_list Nodes.strictly_builtIn Nodes.keepsInput rfl (by simp) Nodes.within_pair
    · exact .of_record ⟨_, _, rfl, rfl⟩
    · exact .of_list Nodes.strictly_builtIn Nodes.keepsInput rfl (by simp) Nodes.within_untagged

namespace Points

/-- Makes a pair of every new record. -/
def wrapping : Finisher := ⟨some "wrap", fun _ record => return .tuple [.text "wrapped", record]⟩

/-- A type that claims all records and takes texts for them. -/
def written : Custom where
  className := "WrittenType"
  name := "written"
  priority := 400000000
  suits := fun heap sample => return heap.isRecord sample
  standIn := fun _ sample => return sample
  fit := fun heap value _ =>
    match heap.look value with
    | .text _ => return .settled
    | shape => return .refused s!"expected text but got {shape.shapeName}"
  measure := .plain
  parse := fun _ _ _ _ value => return .ok value

/-- Points with a strict configuration of their own, and perhaps with one more type. -/
def define (finisher : Finisher) (further : Option ValueType) : Act SchemaId := do
  let config ← Session.newConfiguration { lenient := false, finisher, catalogue := 0 }
  match further with
  | none => pure ()
  | some type => Session.register config type
  Session.defineSchema "Point" [0] [("x", .declared { sample := .int 0 })] (some config)

def point : Value := .mapping [(.text "x", .int 1)]

end Points

/-- A point is valid at its place, but not in a list: if the sample of points was made a pair, and
if another type claims the sample. -/
theorem list_unlike_its_elements :
    (∃ id session values fail,
      (Points.define Points.wrapping none).run.run Session.start = (.ok id, session) ∧
      Validation.InTurn session.world (session.world.config 1) (session.world.schema id) 0
        [Points.point] [] (.ok values) [] ∧
      (session.world.validateList (session.world.schema id) (.list [Points.point]) none).Breaks []
        (.rejected fail) []) ∧
    ∃ id session values fail,
      (Points.define .identity (some (.custom Points.written))).run.run Session.start =
        (.ok id, session) ∧
      Validation.InTurn session.world (session.world.config 1) (session.world.schema id) 0
        [Points.point] [] (.ok values) [] ∧
      (session.world.validateList (session.world.schema id) (.list [Points.point]) none).Breaks []
        (.rejected fail) [] := by
  have alone {world : World} {config : Configuration} {schema : Schema} {value : Value}
      (ran : (world.validateAt config schema (Validation.elementPath "" 0) Points.point).Yields []
        (.ok value) []) :
      Validation.InTurn world config schema 0 [Points.point] [] (.ok [value]) [] :=
    (Validation.InTurn.passed ran .done :)
  exact ⟨⟨1, _, _, _, rfl, alone rfl, rfl⟩, 1, _, _, _, rfl, alone rfl, rfl⟩

end Exemplar
