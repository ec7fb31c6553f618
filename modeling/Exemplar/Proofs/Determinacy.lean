import Exemplar.Proofs.Breakdowns
import Exemplar.Proofs.Laws

/-!
Laws of whole runs. A law that also outlasts the catching of faults is passed on from types, checks
and hooks to validation itself. Determinacy is such a law: what a computation comes to, and what it
adds to the trace, does not depend on what happened before.
-/

namespace Exemplar

open Run (Law)

/-- The law holds as well of what catches faults and of notes in the log. -/
structure Run.Law.Contains (law : Law) : Prop where
  outcome {α : Type} {action : Run α} : law.Holds action → law.Holds action.outcome
  debug : ∀ text, law.Holds (Run.debug text)

/-- Everything that schemas and catalogues consist of obeys the law. -/
structure World.Obeys (law : Law) (world : World) : Prop where
  types {id type} : type ∈ world.catalogue id → type.Obeys law
  fields {id compiled field} : (world.schema id).compiled = some compiled →
    field ∈ compiled.fields → field.Obeys law

/-- So do the hooks of a configuration. -/
structure Configuration.Obeys (law : Law) (heap : Heap) (config : Configuration) : Prop where
  sink : ∀ text, law.Holds (config.sink.report text)
  finisher : ∀ record, law.Holds (config.finisher.finish heap record)
  keys : ∀ name, law.Holds (config.keys.keyOf name)

namespace Validation

variable {law : Law} {world : World} {config : Configuration} {parse : Parse}

def ParseObeys (law : Law) (parse : Parse) : Prop :=
  ∀ {type path sample value}, type.Obeys law → law.Holds (parse type path sample value)

section Elements

variable {heap : Heap} {collection : Collection} {element : ValueType} {sample gathered : Value}
  {path : String}

theorem obeys_parseItem {item : Value} (hooks : config.Obeys law heap) (parses : ParseObeys law parse)
    (kind : collection.Obeys law) (obeys : element.Obeys law) :
    law.Holds (parseItem parse heap config collection element sample path gathered item) := by
  have inserted (value : Value) :
      law.Holds (do return .ok (← collection.insert heap gathered value) : Run Outcome) :=
    law.bind (kind.insert heap gathered value) fun _ => law.pure
  refine law.bind obeys.fit fun {_ fit _} _ => ?_
  cases fit with
  | refused reason => exact law.pure
  | settled => exact inserted item
  | toParse =>
      refine law.bind (parses obeys) fun {_ result _} _ => ?_
      cases result with
      | ok parsed => exact inserted parsed
      | error fail =>
          dsimp only
          split
          next => exact law.bind (hooks.sink _) fun _ => law.pure
          next => exact law.pure

theorem obeys_parseElements {index : Nat} {items : List Value} (hooks : config.Obeys law heap)
    (parses : ParseObeys law parse) (kind : collection.Obeys law) (obeys : element.Obeys law) :
    law.Holds (parseElements parse heap config collection element sample path index gathered
      items) := by
  induction items generalizing index gathered with
  | nil => exact law.pure
  | cons item rest ih =>
      rw [parseElements_cons]
      refine law.bind (obeys_parseItem hooks parses kind obeys) fun {_ result _} _ => ?_
      cases result with
      | ok grown => exact ih
      | error fail => exact law.pure

/-- The type of the elements is given, or the catalogue has it. -/
theorem obeys_elementType {element : Option ValueType} {representative : Value}
    (lawful : world.Obeys law) :
    law.Holds (elementType world config element representative) := by
  cases element with
  | none => exact Catalogue.obeys_typeFor fun _ => lawful.types
  | some type => exact law.pure

theorem obeys_of_elementType {element : Option ValueType} {representative : Value}
    {type : ValueType} {before after : Trace} (lawful : world.Obeys law)
    (own : ∀ type ∈ element, type.Obeys law)
    (resolved : (elementType world config element representative).Yields before type after) :
    type.Obeys law := by
  cases element with
  | none =>
      obtain ⟨found, member, binds⟩ := Catalogue.binds_of_typeFor resolved
      exact binds.obeys (fun _ => lawful.types) (lawful.types member)
  | some given =>
      obtain ⟨rfl, _⟩ := Run.yields_pure.mp resolved
      exact own _ rfl

theorem obeys_parseCollection {element : Option ValueType} {value : Value} (lawful : world.Obeys law)
    (hooks : config.Obeys law world.heap) (parses : ParseObeys law parse)
    (kind : collection.Obeys law) (own : ∀ type ∈ element, type.Obeys law) :
    law.Holds (parseCollection parse world config collection element path sample value) := by
  rw [parseCollection_eq]
  refine law.bind kind.empty fun _ => law.bind (kind.first world.heap sample) fun {_ first _} _ => ?_
  cases first with
  | none => exact law.bind (law.lift Heap.iterate_ne_rejected) fun _ => obeys_insertAll kind
  | some representative =>
      refine law.bind (obeys_elementType lawful) fun resolved =>
        law.bind (law.lift Heap.iterate_ne_rejected) fun _ => ?_
      exact obeys_parseElements hooks parses kind (obeys_of_elementType lawful own resolved)

end Elements

section Fields

variable {field : Field} {path location : String} {entries : List (Value × Value)}

theorem obeys_parseField {value : Value} (hooks : config.Obeys law world.heap)
    (parses : ParseObeys law parse) (obeys : field.Obeys law) :
    law.Holds (parseField parse config field path value) := by
  refine law.bind (parses obeys.type) fun {_ result _} _ => ?_
  cases result with
  | ok parsed => exact law.pure
  | error fail =>
      dsimp only
      split
      next => exact law.bind (hooks.sink _) fun _ => law.pure
      next => exact law.pure

theorem obeys_checkField {value : Value} {fit : Fit} (hooks : config.Obeys law world.heap)
    (parses : ParseObeys law parse) (obeys : field.Obeys law) :
    law.Holds (checkField parse world config field path value fit) := by
  refine law.bind obeys.firstFailure fun _ => law.bind Field.obeys_locate fun {_ located _} _ => ?_
  cases located with
  | some fail => exact law.pure
  | none =>
      cases fit with
      | settled => exact law.pure
      | refused _ | toParse => exact obeys_parseField hooks parses obeys

theorem obeys_settleField (hooks : config.Obeys law world.heap) (parses : ParseObeys law parse)
    (obeys : field.Obeys law) :
    law.Holds (settleField parse world config field path entries) := by
  rw [settleField_eq]
  refine law.bind (obeys_inputOf hooks.keys obeys) fun {_ input _} _ => ?_
  cases input with
  | inl outcome => exact law.pure
  | inr given =>
      refine law.bind obeys.type.fit fun {_ fit _} _ => ?_
      cases fit with
      | refused reason => exact law.pure
      | settled | toParse => exact obeys_checkField hooks parses obeys

theorem obeys_guardField (contains : law.Contains) (hooks : config.Obeys law world.heap)
    (parses : ParseObeys law parse) (obeys : field.Obeys law) :
    law.Holds (guardField parse world config field path entries) := by
  refine law.bind (contains.outcome (obeys_settleField hooks parses obeys)) fun {_ result _} _ => ?_
  cases result with
  | ok outcome => exact law.pure
  | error fault => exact law.bind (contains.debug _) fun _ => law.pure

theorem obeys_settleFields {fields : List Field} {stored : List (String × Value)}
    (contains : law.Contains) (hooks : config.Obeys law world.heap) (parses : ParseObeys law parse)
    (obey : ∀ field ∈ fields, field.Obeys law) :
    law.Holds (settleFields parse world config location entries fields stored) := by
  induction fields generalizing stored with
  | nil => exact law.pure
  | cons field rest ih =>
      rw [List.forall_mem_cons] at obey
      refine law.bind (obeys_guardField contains hooks parses obey.1) fun {_ outcome _} _ => ?_
      cases outcome with
      | omitted => exact ih obey.2
      | stored value => exact ih obey.2
      | failed fail => exact law.pure

end Fields

theorem obeys_validateWith {schema : Schema} {location : String} {data : Value}
    (contains : law.Contains) (hooks : config.Obeys law world.heap) (parses : ParseObeys law parse)
    (obey : ∀ compiled, schema.compiled = some compiled →
      ∀ field ∈ compiled.fields, field.Obeys law) :
    law.Holds (validateWith parse world config schema location data) := by
  have demanded : law.Holds (liftM schema.demandCompiled : Run Compiled) :=
    law.lift Schema.demandCompiled_ne_rejected
  simp only [validateWith]
  split
  next =>
    split
    next => exact law.pure
    next => exact law.bind demanded fun _ => law.pure
  next =>
    refine law.bind demanded fun {_ compiled _} found => ?_
    have known := demandCompiled_ok.mp (Run.yields_lift.mp found).1
    refine law.bind (obeys_settleFields contains hooks parses (obey compiled known))
      fun {_ result _} _ => ?_
    cases result with
    | error fail => exact law.pure
    | ok fields => exact law.bind (hooks.finisher _) fun _ => law.pure
  next => exact law.bind demanded fun _ => law.pure

theorem obeys_parseObject {path : String} {sample value : Value} (lawful : world.Obeys law)
    (contains : law.Contains) (hooks : config.Obeys law world.heap)
    (parses : ParseObeys law parse) :
    law.Holds (parseObject parse world config path sample value) := by
  unfold parseObject
  split
  next => exact obeys_validateWith contains hooks parses fun _ known _ => lawful.fields known
  next =>
    split
    next => exact law.pure
    next => exact law.throw nofun

theorem parseObeys_parseTo (lawful : world.Obeys law) (contains : law.Contains)
    (hooks : config.Obeys law world.heap) (limit : Nat) :
    ParseObeys law (parseTo world config limit) := by
  induction limit with
  | zero =>
      intro type path sample value obeys
      cases obeys with
      | primitive => exact law.pure
      | bigInteger => exact law.lift BigInteger.parse_ne_rejected
      | custom own => exact own.parse _ _ _ _ _
      | record | unbound _ | bound _ _ => exact law.throw nofun
  | succ limit ih =>
      intro type path sample value obeys
      cases obeys with
      | primitive => exact law.pure
      | bigInteger => exact law.lift BigInteger.parse_ne_rejected
      | custom own => exact own.parse _ _ _ _ _
      | record => exact obeys_parseObject lawful contains hooks ih
      | unbound kind => exact obeys_parseCollection lawful hooks ih kind (by simp)
      | bound kind inner => exact obeys_parseCollection lawful hooks ih kind (by simpa using inner)

end Validation

namespace Run

variable {α : Type} {action : Run α}

/-- The computation comes to one result by the same events each time. -/
def Determined (action : Run α) : Prop :=
  ∃ result events, ∀ before, action.run.run before = (result, before ++ events)

theorem determined_record {event : Event} : Determined (record event) :=
  ⟨.ok (), [event], fun _ => rfl⟩

def determinacy : Law where
  Holds := Determined
  pure {_ value} := ⟨.ok value, [], fun before => by rw [List.append_nil]; rfl⟩
  throw {_ fault} _ := ⟨.error fault, [], fun before => by rw [List.append_nil]; rfl⟩
  bind {α β action next} first rest := by
    obtain ⟨result, events, ran⟩ := first
    cases result with
    | error fault =>
        have broke (before : Trace) : action.Breaks before fault (before ++ events) := ran before
        exact ⟨.error fault, events, fun before => (broke before).bind⟩
    | ok value =>
        have yielded (before : Trace) : action.Yields before value (before ++ events) := ran before
        obtain ⟨result, more, ended⟩ := rest (yielded [])
        refine ⟨result, events ++ more, fun before => ?_⟩
        rw [(yielded before).bind, ended, List.append_assoc]

theorem contains_determinacy : determinacy.Contains where
  outcome {_ action} determined := by
    obtain ⟨result, events, ran⟩ := determined
    have opened (before : Trace) : action.outcome.run.run before =
        (.ok (action.run.run before).1, (action.run.run before).2) := rfl
    exact ⟨.ok result, events, fun before => by rw [opened, ran]⟩
  debug _ := determined_record

/-- From every trace the computation yields the value and adds the events. -/
def Adds (action : Run α) (value : α) (events : Trace) : Prop :=
  ∀ before, action.Yields before value (before ++ events)

/-- What is determined and never breaks down comes to one value. -/
theorem Determined.adds (determined : action.Determined)
    (whole : ∀ before fault after, ¬ action.Breaks before fault after) :
    ∃ value events, action.Adds value events := by
  obtain ⟨result, events, ran⟩ := determined
  cases result with
  | error fault => exact absurd (ran []) (whole [] fault ([] ++ events))
  | ok value => exact ⟨value, events, ran⟩

end Run

namespace Nodes

theorem lawful {law : Law} : world.Obeys law where
  types {id type} member := by
    match id, member with
    | 0, member => exact Catalogue.obeys_builtIn member
    | id + 1, member => simp [World.catalogue, world] at member
  fields {id compiled field} known member := by
    cases compiled_eq known
    exact obeys member

/-- The hooks that are in force where none are set. -/
theorem determined_hooks {heap : Heap} {id : CatalogueId} :
    Configuration.Obeys Run.determinacy heap { catalogue := id } where
  sink _ := Run.determined_record
  finisher _ := Run.determinacy.pure
  keys _ := Run.determinacy.pure

end Nodes

end Exemplar
