import Exemplar.Proofs.Laws
import Exemplar.Proofs.OneByOne
import Exemplar.Proofs.Policy
import Exemplar.Proofs.Recursion
import Mathlib.Data.List.Forall2

/-!
Validation at another place. Only the paths of failures and of warnings tell where a run takes place.
At another place the run comes to the same values and to the same failures and warnings, all of them
located from that place on. What a nested object fails for is therefore what it would fail for by
itself.
-/

namespace Exemplar

/-- Where a path leads from a place on; the empty path leads nowhere else. -/
def relocated (place path : String) : String := if path = "" then place else place ++ "." ++ path

def Failure.relocated (place : String) (fail : Failure) : Failure :=
  fail.movedTo (Exemplar.relocated place fail.path)

/-- The same event at another place. Warnings are what is marked, whatever else happens is not. -/
inductive Event.Relocates (mark : String → Event) (place : String) : Event → Event → Prop
  | kept {event} : event.isWarning = false → Relocates mark place event event
  | element (fail : Failure) :
      Relocates mark place (mark s!"skipping element {fail.path} - {fail.message}")
        (mark s!"skipping element {relocated place fail.path} - {fail.message}")
  | object (fail : Failure) :
      Relocates mark place (mark s!"skipping nested object {fail.path} - {fail.message}")
        (mark s!"skipping nested object {relocated place fail.path} - {fail.message}")
  | breakdown (path : String) :
      Relocates mark place (.logged .debug s!"Unexpected error validating '{path}'")
        (.logged .debug s!"Unexpected error validating '{relocated place path}'")

namespace Run

section Constancy

variable {α : Type}

/-- The computation comes to one result by the same events each time, and warns of nothing. -/
def Constant (action : Run α) : Prop :=
  ∃ result events, (∀ event ∈ events, event.isWarning = false) ∧
    ∀ before, action.run.run before = (result, before ++ events)

theorem constant_record {event : Event} (quiet : event.isWarning = false) :
    Constant (record event) :=
  ⟨.ok (), [event], by simpa using quiet, fun _ => rfl⟩

def constant : Law where
  Holds := Constant
  pure {_ value} := ⟨.ok value, [], by simp, fun before => by rw [List.append_nil]; rfl⟩
  throw {_ fault} _ := ⟨.error fault, [], by simp, fun before => by rw [List.append_nil]; rfl⟩
  bind {α β action next} first rest := by
    obtain ⟨result, events, quiet, ran⟩ := first
    cases result with
    | error fault =>
        have broke (before : Trace) : action.Breaks before fault (before ++ events) := ran before
        exact ⟨.error fault, events, quiet, fun before => (broke before).bind⟩
    | ok value =>
        have yielded (before : Trace) : action.Yields before value (before ++ events) := ran before
        obtain ⟨result, more, still, ended⟩ := rest (yielded [])
        refine ⟨result, events ++ more, ?_, fun before => ?_⟩
        · intro event member
          rcases List.mem_append.mp member with early | late
          · exact quiet event early
          · exact still event late
        · rw [(yielded before).bind, ended, List.append_assoc]

end Constancy

section Places

variable {α β : Type} {mark : String → Event} {place : String}

/-- Each time, the second computation comes to what the first one comes to, moved, by the same events
at another place. -/
def Relocates (mark : String → Event) (place : String) (move : α → α) (here there : Run α) : Prop :=
  ∃ result events others,
    (∀ before, here.run.run before = (result, before ++ events)) ∧
    (∀ before, there.run.run before = (result.map move, before ++ others)) ∧
    List.Forall₂ (Event.Relocates mark place) events others

variable {move : α → α} {moveNext : β → β} {action here there : Run α} {next other : α → Run β}
  {value : α} {fault : Fault}

theorem relocates_pure {moved : α} (same : move value = moved) :
    Relocates mark place move (pure value) (pure moved) := by
  subst same
  exact ⟨.ok value, [], [], fun before => by rw [List.append_nil]; rfl,
    fun before => by rw [List.append_nil]; rfl, .nil⟩

theorem relocates_throw : Relocates mark place move (throw fault) (throw fault) :=
  ⟨.error fault, [], [], fun before => by rw [List.append_nil]; rfl,
    fun before => by rw [List.append_nil]; rfl, .nil⟩

theorem relocates_lift {result : Except Fault α} :
    Relocates mark place move (liftM result) (liftM (result.map move)) := by
  cases result with
  | ok value => exact relocates_pure rfl
  | error fault => exact relocates_throw

theorem relocates_record {event moved : Event} (same : event.Relocates mark place moved) :
    Relocates mark place id (record event) (record moved) :=
  ⟨.ok (), [event], [moved], fun _ => rfl, fun _ => rfl, .cons same .nil⟩

theorem relocates_of_constant (constant : Constant action) :
    Relocates mark place id action action := by
  obtain ⟨result, events, quiet, ran⟩ := constant
  refine ⟨result, events, events, ran, fun before => ?_, ?_⟩
  · rw [ran]
    cases result <;> rfl
  · exact List.forall₂_same.mpr fun event member => .kept (quiet event member)

/-- What comes next has to be the same at the other place for those values only that there are. -/
theorem Relocates.bind (first : Relocates mark place move here there)
    (rest : ∀ {before value after}, here.Yields before value after →
      Relocates mark place moveNext (next value) (other (move value))) :
    Relocates mark place moveNext (here >>= next) (there >>= other) := by
  obtain ⟨result, events, others, ran, moved, alike⟩ := first
  cases result with
  | error fault =>
      have broke (before : Trace) : here.Breaks before fault (before ++ events) := ran before
      have fell (before : Trace) : there.Breaks before fault (before ++ others) := moved before
      exact ⟨.error fault, events, others, fun before => (broke before).bind,
        fun before => (fell before).bind, alike⟩
  | ok value =>
      have yielded (before : Trace) : here.Yields before value (before ++ events) := ran before
      have gave (before : Trace) : there.Yields before (move value) (before ++ others) :=
        moved before
      obtain ⟨result, more, further, ended, followed, same⟩ := rest (yielded [])
      refine ⟨result, events ++ more, others ++ further, fun before => ?_, fun before => ?_,
        List.rel_append alike same⟩
      · rw [(yielded before).bind, ended, List.append_assoc]
      · rw [(gave before).bind, followed, List.append_assoc]

/-- Both do the same thing first. -/
theorem relocates_after (constant : Constant action)
    (rest : ∀ {before value after}, action.Yields before value after →
      Relocates mark place moveNext (next value) (other value)) :
    Relocates mark place moveNext (action >>= next) (action >>= other) :=
  (relocates_of_constant constant).bind rest

theorem Relocates.outcome (relocates : Relocates mark place move here there) :
    Relocates mark place (Except.map move) here.outcome there.outcome := by
  have opened (action : Run α) (before : Trace) : action.outcome.run.run before =
      (.ok (action.run.run before).1, (action.run.run before).2) := rfl
  obtain ⟨result, events, others, ran, moved, alike⟩ := relocates
  refine ⟨.ok result, events, others, fun before => ?_, fun before => ?_, alike⟩
  · rw [opened, ran]
  · rw [opened, moved]
    rfl

theorem Relocates.yields_iff {moved : α} (relocates : Relocates mark place move here there)
    (before start : Trace) :
    (∃ after, there.Yields before moved after) ↔
      ∃ value after, here.Yields start value after ∧ move value = moved := by
  obtain ⟨result, events, others, ran, gave, _⟩ := relocates
  constructor
  · intro found
    obtain ⟨after, yielded⟩ := found
    have same := congrArg Prod.fst (yielded.symm.trans (gave before))
    cases result with
    | error fault => cases same
    | ok value =>
        cases same
        exact ⟨value, start ++ events, ran start, rfl⟩
  · intro found
    obtain ⟨value, after, yielded, rfl⟩ := found
    have same := congrArg Prod.fst (yielded.symm.trans (ran start))
    cases same
    exact ⟨before ++ others, gave before⟩

end Places

end Run

open Run

/-- An outcome at another place. -/
def Outcome.relocated (place : String) : Outcome → Outcome :=
  Except.mapError (Failure.relocated place)

/-- The types of the application fail at another place as they would fail in place. -/
def ValueType.Portable (mark : String → Event) (heap : Heap) : ValueType → Prop
  | .bound _ element => element.Portable mark heap
  | .custom own => ∀ config place path sample value, place ≠ "" → path ≠ "" →
      Relocates mark place (Outcome.relocated place) (own.parse config heap path sample value)
        (own.parse config heap (relocated place path) sample value)
  | _ => True

namespace Validation

/-- Parsing by the type comes to records of the schema. -/
inductive Involves (world : World) (config : Configuration) :
    ValueType → Value → SchemaId → Prop
  | record {sample recordClass fields} : world.heap.look sample = .record recordClass fields →
      Involves world config .record sample recordClass.number
  | element {type collection element sample first representative looked bound inner named id} :
      OfCollection type collection element →
      (collection.first world.heap sample).Yields first (some representative) looked →
      (elementType world config element representative).Yields bound inner named →
      Involves world config inner representative id → Involves world config type sample id

/-- The schema itself, and those of the records inside of its records. -/
inductive InTree (world : World) (config : Configuration) (root : SchemaId) : SchemaId → Prop
  | root : InTree world config root root
  | field {id compiled field inner} : InTree world config root id →
      (world.schema id).compiled = some compiled → field ∈ compiled.fields →
      Involves world config field.type field.sample inner → InTree world config root inner

end Validation

open Validation

/-- The fields in the tree of a schema have names; hooks, checks and the operations of types do the
same each time; and the only warnings are those that the sink marks. -/
structure World.Portable (world : World) (config : Configuration) (mark : String → Event)
    (root : SchemaId) : Prop where
  sink : ∀ text, config.sink.report text = record (mark text)
  warning : ∀ text, (mark text).isWarning = true
  keys : ∀ name, Constant (config.keys.keyOf name)
  finisher : ∀ record, Constant (config.finisher.finish world.heap record)
  registered : ∀ type ∈ world.catalogue config.catalogue,
    type.Obeys constant ∧ type.Portable mark world.heap
  named {id compiled field} : InTree world config root id →
    (world.schema id).compiled = some compiled → field ∈ compiled.fields → field.name ≠ ""
  fields {id compiled field} : InTree world config root id →
    (world.schema id).compiled = some compiled → field ∈ compiled.fields →
    field.Obeys constant ∧ field.type.Portable mark world.heap

section Paths

variable {place path name : String}

@[simp] theorem relocated_empty : relocated place "" = place := by
  simp [relocated]

theorem relocated_of_ne_empty (further : path ≠ "") : relocated place path = place ++ "." ++ path :=
  if_neg further

theorem relocated_ne_empty (away : place ≠ "") : relocated place path ≠ "" := by
  unfold relocated
  split
  next => exact away
  next => simp [String.append_eq_empty_iff, away]

theorem fieldPath_ne_empty (named : name ≠ "") : fieldPath path name ≠ "" := by
  unfold fieldPath
  split
  next => exact named
  next => simp [String.append_eq_empty_iff, named]

theorem fieldPath_relocated (away : place ≠ "") (named : name ≠ "") :
    fieldPath (relocated place path) name = relocated place (fieldPath path name) := by
  rw [relocated_of_ne_empty (fieldPath_ne_empty named), fieldPath, if_neg (relocated_ne_empty away)]
  by_cases whole : path = ""
  · simp [whole, fieldPath]
  · simp [relocated, fieldPath, whole, String.append_assoc]

theorem elementPath_relocated {index : Nat} (inside : path ≠ "") :
    elementPath (relocated place path) index = relocated place (elementPath path index) := by
  rw [relocated_of_ne_empty inside, relocated_of_ne_empty elementPath_ne_empty, elementPath_eq,
    elementPath_eq]
  simp [String.append_assoc]

/-- What lies inside of a place lies elsewhere. -/
theorem inside_ne_place : place ++ "." ++ path ≠ place := by
  intro same
  have length := congrArg String.length same
  simp only [String.length_append] at length
  have dot : ".".length = 1 := rfl
  omega

/-- A failure inside of a place is one that has a path of its own. -/
theorem relocated_eq_inside {other : String} (further : other ≠ "") :
    relocated place path = place ++ "." ++ other ↔ path = other := by
  constructor
  · intro same
    by_cases whole : path = ""
    · rw [whole, relocated_empty] at same
      exact absurd same.symm inside_ne_place
    · rw [relocated_of_ne_empty whole] at same
      simpa using same
  · intro same
    subst same
    exact relocated_of_ne_empty further

theorem Outcome.relocated_eq_inside {code message : String} {outcome : Outcome}
    (further : path ≠ "") :
    outcome.relocated place = .error ⟨place ++ "." ++ path, code, message⟩ ↔
      outcome = .error ⟨path, code, message⟩ := by
  cases outcome with
  | ok value => simp [relocated, Except.mapError]
  | error fail =>
      obtain ⟨own, ownCode, ownMessage⟩ := fail
      simp [relocated, Except.mapError, Failure.relocated, Failure.movedTo,
        Exemplar.relocated_eq_inside further]

end Paths

def FieldOutcome.relocated (place : String) : FieldOutcome → FieldOutcome
  | .failed fail => .failed (fail.relocated place)
  | outcome => outcome

namespace Validation

variable {world : World} {config : Configuration} {mark : String → Event} {root : SchemaId}
  {place path : String}

/-- The tree of the root comes to parse by this type, with this sample. -/
structure Belongs (world : World) (config : Configuration) (mark : String → Event)
    (root : SchemaId) (type : ValueType) (sample : Value) : Prop where
  obeys : type.Obeys constant
  portable : type.Portable mark world.heap
  inTree {id} : Involves world config type sample id → InTree world config root id

theorem belongs_of_field {id : SchemaId} {compiled : Compiled} {field : Field}
    (portable : world.Portable config mark root) (inTree : InTree world config root id)
    (known : (world.schema id).compiled = some compiled) (member : field ∈ compiled.fields) :
    Belongs world config mark root field.type field.sample :=
  ⟨(portable.fields inTree known member).1.type, (portable.fields inTree known member).2,
    inTree.field known member⟩

theorem portable_of_binds {catalogue : Catalogue} {heap : Heap} {type bound : ValueType}
    {sample : Value} (binds : catalogue.Binds heap type sample bound)
    (registered : ∀ type ∈ catalogue, type.Portable mark heap)
    (start : type.Portable mark heap) : bound.Portable mark heap := by
  induction binds with
  | plain _ | bare _ _ => exact start
  | element _ _ member _ ih => exact ih (registered _ member)

theorem constant_elementType {element : Option ValueType} {representative : Value}
    (portable : world.Portable config mark root) :
    Constant (elementType world config element representative) := by
  cases element with
  | none => exact Catalogue.obeys_typeFor fun type member => (portable.registered type member).1
  | some type => exact constant.pure

theorem Belongs.element {type inner : ValueType} {collection : Collection}
    {element : Option ValueType} {sample representative : Value}
    {first looked bound named : Trace} (belongs : Belongs world config mark root type sample)
    (portable : world.Portable config mark root)
    (gathers : OfCollection type collection element)
    (found : (collection.first world.heap sample).Yields first (some representative) looked)
    (resolved : (elementType world config element representative).Yields bound inner named) :
    Belongs world config mark root inner representative := by
  have deeper {id : SchemaId} (involves : Involves world config inner representative id) :
      InTree world config root id :=
    belongs.inTree (.element gathers found resolved involves)
  cases gathers with
  | unbound =>
      obtain ⟨type, member, binds⟩ := Catalogue.binds_of_typeFor resolved
      exact ⟨binds.obeys (fun type known => (portable.registered type known).1)
          (portable.registered type member).1,
        portable_of_binds binds (fun type known => (portable.registered type known).2)
          (portable.registered type member).2, deeper⟩
  | bound =>
      obtain ⟨rfl, _⟩ := Run.yields_pure.mp resolved
      cases belongs.obeys with
      | bound _ inner => exact ⟨inner, belongs.portable, deeper⟩

/-- Parsing at another place comes to the same there. -/
def ParseRelocates (world : World) (config : Configuration) (mark : String → Event)
    (root : SchemaId) (place : String) (parse : Parse) : Prop :=
  ∀ type path sample value, Belongs world config mark root type sample → path ≠ "" →
    Relocates mark place (Outcome.relocated place) (parse type path sample value)
      (parse type (relocated place path) sample value)

variable {parse : Parse}

section Elements

variable {collection : Collection} {element : ValueType} {sample gathered : Value}

theorem relocates_insert {heap : Heap} {value : Value} (kind : collection.Obeys constant) :
    Relocates mark place (Outcome.relocated place)
      (do return .ok (← collection.insert heap gathered value))
      (do return .ok (← collection.insert heap gathered value)) :=
  relocates_after (kind.insert heap gathered value) fun _ => relocates_pure rfl

theorem relocates_insertAll {heap : Heap} {values : List Value} (kind : collection.Obeys constant) :
    Relocates mark place (Outcome.relocated place) (insertAll heap collection gathered values)
      (insertAll heap collection gathered values) := by
  induction values generalizing gathered with
  | nil => exact relocates_pure rfl
  | cons value rest ih => exact relocates_after (kind.insert heap gathered value) fun _ => ih

theorem relocates_parseItem {item : Value} (portable : world.Portable config mark root)
    (parses : ParseRelocates world config mark root place parse) (kind : collection.Obeys constant)
    (belongs : Belongs world config mark root element sample) (inside : path ≠ "") :
    Relocates mark place (Outcome.relocated place)
      (parseItem parse world.heap config collection element sample path gathered item)
      (parseItem parse world.heap config collection element sample (relocated place path) gathered
        item) := by
  refine relocates_after belongs.obeys.fit fun {_ fit _} _ => ?_
  cases fit with
  | refused reason => exact relocates_pure rfl
  | settled => exact relocates_insert kind
  | toParse =>
      refine (parses _ path sample item belongs inside).bind fun {_ result _} _ => ?_
      cases result with
      | ok parsed => exact relocates_insert kind
      | error fail =>
          by_cases lenient : config.lenient = true
          · simp only [Outcome.relocated, Except.mapError, lenient, if_true, portable.sink]
            exact (relocates_record (.element fail)).bind fun _ => relocates_pure rfl
          · simp only [Outcome.relocated, Except.mapError, lenient]
            exact relocates_pure rfl

theorem relocates_parseElements {index : Nat} {values : List Value}
    (portable : world.Portable config mark root)
    (parses : ParseRelocates world config mark root place parse) (kind : collection.Obeys constant)
    (belongs : Belongs world config mark root element sample) (inside : path ≠ "") :
    Relocates mark place (Outcome.relocated place)
      (parseElements parse world.heap config collection element sample path index gathered values)
      (parseElements parse world.heap config collection element sample (relocated place path) index
        gathered values) := by
  induction values generalizing index gathered with
  | nil => exact relocates_pure rfl
  | cons item rest ih =>
      rw [parseElements_cons, parseElements_cons, elementPath_relocated inside]
      refine (relocates_parseItem portable parses kind belongs elementPath_ne_empty).bind
        fun {_ result _} _ => ?_
      cases result with
      | ok grown => exact ih
      | error fail => exact relocates_pure rfl

theorem relocates_parseCollection {type : ValueType} {inner : Option ValueType} {value : Value}
    (portable : world.Portable config mark root)
    (parses : ParseRelocates world config mark root place parse)
    (gathers : OfCollection type collection inner)
    (belongs : Belongs world config mark root type sample) (inside : path ≠ "") :
    Relocates mark place (Outcome.relocated place)
      (parseCollection parse world config collection inner path sample value)
      (parseCollection parse world config collection inner (relocated place path) sample value) := by
  have kind := belongs.obeys.own gathers
  rw [parseCollection_eq, parseCollection_eq]
  refine relocates_after kind.empty fun {_ empty _} _ => ?_
  refine relocates_after (kind.first world.heap sample) fun {_ first _} found => ?_
  cases first with
  | none =>
      exact relocates_after (constant.lift Heap.iterate_ne_rejected) fun _ => relocates_insertAll kind
  | some representative =>
      refine relocates_after (constant_elementType portable) fun {_ type _} resolved => ?_
      refine relocates_after (constant.lift Heap.iterate_ne_rejected) fun {_ values _} _ => ?_
      exact relocates_parseElements portable parses kind
        (belongs.element portable gathers found resolved) inside

end Elements

section Fields

variable {field : Field} {entries : List (Value × Value)}

theorem relocates_inputOf (portable : world.Portable config mark root)
    (obeys : field.Obeys constant) :
    Relocates mark place (Sum.map (FieldOutcome.relocated place) id)
      (inputOf world config field path entries)
      (inputOf world config field (relocated place path) entries) := by
  rw [inputOf_eq, inputOf_eq]
  refine relocates_after (portable.keys field.name) fun {_ key _} _ => ?_
  by_cases absent : entryUnder key entries = .null
  · rw [absent, fromEntry_null, fromEntry_null, withoutInput, withoutInput]
    split
    · exact relocates_pure rfl
    · exact relocates_pure rfl
    · exact relocates_after obeys.type.standIn fun _ => relocates_pure rfl
  · rw [fromEntry_of_ne_null absent, fromEntry_of_ne_null absent]
    exact relocates_pure rfl

theorem relocates_locate {heap : Heap} {verdict : Verdict} :
    Relocates mark place (Option.map (Failure.relocated place)) (Field.locate heap path verdict)
      (Field.locate heap (relocated place path) verdict) := by
  cases verdict with
  | pass => exact relocates_pure rfl
  | failure fail => exact relocates_pure rfl
  | other answer => exact relocates_throw

theorem relocates_parseField {value : Value} (portable : world.Portable config mark root)
    (parses : ParseRelocates world config mark root place parse)
    (belongs : Belongs world config mark root field.type field.sample) (inside : path ≠ "") :
    Relocates mark place (FieldOutcome.relocated place) (parseField parse config field path value)
      (parseField parse config field (relocated place path) value) := by
  refine (parses _ path field.sample value belongs inside).bind fun {_ result _} _ => ?_
  cases result with
  | ok parsed => exact relocates_pure rfl
  | error fail =>
      simp only [Outcome.relocated, Except.mapError]
      split
      next pardoned =>
        simp only [portable.sink]
        exact (relocates_record (.object fail)).bind fun _ => relocates_pure rfl
      next => exact relocates_pure rfl

theorem relocates_checkField {value : Value} {fit : Fit}
    (portable : world.Portable config mark root) (obeys : field.Obeys constant)
    (parses : ParseRelocates world config mark root place parse)
    (belongs : Belongs world config mark root field.type field.sample) (inside : path ≠ "") :
    Relocates mark place (FieldOutcome.relocated place)
      (checkField parse world config field path value fit)
      (checkField parse world config field (relocated place path) value fit) := by
  refine relocates_after obeys.firstFailure fun {_ verdict _} _ => ?_
  refine relocates_locate.bind fun {_ located _} _ => ?_
  cases located with
  | some fail => exact relocates_pure rfl
  | none =>
      cases fit with
      | settled => exact relocates_pure rfl
      | refused _ | toParse => exact relocates_parseField portable parses belongs inside

theorem relocates_settleField (portable : world.Portable config mark root)
    (obeys : field.Obeys constant) (parses : ParseRelocates world config mark root place parse)
    (belongs : Belongs world config mark root field.type field.sample) (inside : path ≠ "") :
    Relocates mark place (FieldOutcome.relocated place)
      (settleField parse world config field path entries)
      (settleField parse world config field (relocated place path) entries) := by
  rw [settleField_eq, settleField_eq]
  refine (relocates_inputOf portable obeys).bind fun {_ input _} _ => ?_
  cases input with
  | inl outcome => exact relocates_pure rfl
  | inr given =>
      refine relocates_after obeys.type.fit fun {_ fit _} _ => ?_
      cases fit with
      | refused reason => exact relocates_pure rfl
      | settled | toParse => exact relocates_checkField portable obeys parses belongs inside

/-- What breaks a field down is kept, with the place of the field. -/
theorem relocates_guardField (portable : world.Portable config mark root)
    (obeys : field.Obeys constant) (parses : ParseRelocates world config mark root place parse)
    (belongs : Belongs world config mark root field.type field.sample) (inside : path ≠ "") :
    Relocates mark place (FieldOutcome.relocated place)
      (guardField parse world config field path entries)
      (guardField parse world config field (relocated place path) entries) := by
  refine (relocates_settleField portable obeys parses belongs inside).outcome.bind
    fun {_ result _} _ => ?_
  cases result with
  | ok outcome => exact relocates_pure rfl
  | error fault =>
      exact (relocates_record (.breakdown path)).bind fun _ => relocates_pure rfl

theorem relocates_settleFields {location : String} {fields : List Field}
    {stored : List (String × Value)} (portable : world.Portable config mark root)
    (away : place ≠ "") (parses : ParseRelocates world config mark root place parse)
    (named : ∀ field ∈ fields, field.name ≠ "")
    (obey : ∀ field ∈ fields, field.Obeys constant)
    (belong : ∀ field ∈ fields, Belongs world config mark root field.type field.sample) :
    Relocates mark place (Except.mapError (Failure.relocated place))
      (settleFields parse world config location entries fields stored)
      (settleFields parse world config (relocated place location) entries fields stored) := by
  induction fields generalizing stored with
  | nil => exact relocates_pure rfl
  | cons field rest ih =>
      have name := named field (by simp)
      simp only [settleFields]
      rw [fieldPath_relocated away name]
      refine (relocates_guardField portable (obey field (by simp)) parses (belong field (by simp))
        (fieldPath_ne_empty name)).bind fun {_ outcome _} _ => ?_
      have later (stored : List (String × Value)) := @ih stored
        (fun other member => named other (List.mem_cons_of_mem field member))
        (fun other member => obey other (List.mem_cons_of_mem field member))
        (fun other member => belong other (List.mem_cons_of_mem field member))
      cases outcome with
      | omitted => exact later _
      | stored value => exact later _
      | failed fail => exact relocates_pure rfl

end Fields

theorem relocates_validateWith {id : SchemaId} {location : String} {data : Value}
    (portable : world.Portable config mark root) (away : place ≠ "")
    (parses : ParseRelocates world config mark root place parse)
    (inTree : InTree world config root id) :
    Relocates mark place (Outcome.relocated place)
      (validateWith parse world config (world.schema id) location data)
      (validateWith parse world config (world.schema id) (relocated place location) data) := by
  simp only [validateWith]
  have demanded : Run.Constant (liftM (world.schema id).demandCompiled : Run Compiled) :=
    constant.lift Schema.demandCompiled_ne_rejected
  split
  next =>
    split
    next => exact relocates_pure rfl
    next => exact relocates_after demanded fun _ => relocates_pure rfl
  next =>
    refine relocates_after demanded fun {_ compiled _} found => ?_
    have known := demandCompiled_ok.mp (Run.yields_lift.mp found).1
    refine (relocates_settleFields portable away parses (fun _ => portable.named inTree known)
      (fun _ member => (portable.fields inTree known member).1)
      fun _ => belongs_of_field portable inTree known).bind fun {_ result _} _ => ?_
    cases result with
    | error fail => exact relocates_pure rfl
    | ok fields => exact relocates_after (portable.finisher _) fun _ => relocates_pure rfl
  next => exact relocates_after demanded fun _ => relocates_pure rfl

theorem relocates_parseObject {sample value : Value} (portable : world.Portable config mark root)
    (away : place ≠ "") (parses : ParseRelocates world config mark root place parse)
    (belongs : Belongs world config mark root .record sample) :
    Relocates mark place (Outcome.relocated place)
      (parseObject parse world config path sample value)
      (parseObject parse world config (relocated place path) sample value) := by
  unfold parseObject
  split
  next recordClass fields shape =>
    exact relocates_validateWith portable away parses (belongs.inTree (.record shape))
  next =>
    split
    next => exact relocates_pure rfl
    next => exact relocates_throw

theorem bigInteger_relocated {heap : Heap} {value : Value} :
    BigInteger.parse heap (relocated place path) value =
      (BigInteger.parse heap path value).map (Outcome.relocated place) := by
  have read : ((heap.toInteger value).map fun number => (.ok (.bigInteger number) : Outcome)) =
      ((heap.toInteger value).map fun number => (.ok (.bigInteger number) : Outcome)).map
        (Outcome.relocated place) := by
    cases heap.toInteger value <;> rfl
  unfold BigInteger.parse
  split
  next text _ =>
    split
    next => exact read
    next => rfl
  next => exact read

theorem relocates_parseTo (portable : world.Portable config mark root) (away : place ≠ "")
    (limit : Nat) : ParseRelocates world config mark root place (parseTo world config limit) := by
  have bigInteger (path : String) (value : Value) :
      Relocates mark place (Outcome.relocated place) (BigInteger.parse world.heap path value)
        (BigInteger.parse world.heap (relocated place path) value) := by
    rw [bigInteger_relocated]
    exact relocates_lift
  induction limit with
  | zero =>
      intro type path sample value belongs inside
      cases type with
      | primitive _ => exact relocates_pure rfl
      | bigInteger => exact bigInteger path value
      | custom own => exact belongs.portable config place path sample value away inside
      | record | unbound _ | bound _ _ => exact relocates_throw
  | succ limit ih =>
      intro type path sample value belongs inside
      cases type with
      | primitive _ => exact relocates_pure rfl
      | bigInteger => exact bigInteger path value
      | custom own => exact belongs.portable config place path sample value away inside
      | record => exact relocates_parseObject portable away ih belongs
      | unbound collection =>
          exact relocates_parseCollection portable ih .unbound belongs inside
      | bound collection element =>
          exact relocates_parseCollection portable ih .bound belongs inside

/-- A run at a place is the run at the top, moved to the place. -/
theorem relocates_validateTo {id : SchemaId} {limit : Nat} {data : Value}
    (portable : world.Portable config mark root) (away : place ≠ "")
    (inTree : InTree world config root id) :
    Relocates mark place (Outcome.relocated place)
      (validateTo world config limit (world.schema id) "" data)
      (validateTo world config limit (world.schema id) place data) := by
  have moved : Relocates mark place (Outcome.relocated place)
      (validateTo world config limit (world.schema id) "" data)
      (validateTo world config limit (world.schema id) (relocated place "") data) :=
    relocates_validateWith portable away (relocates_parseTo portable away limit) inTree
  rwa [relocated_empty] at moved

/-- A field that holds records of the schema, asks nothing more of its input and does not let pass
what fails inside. -/
structure NestsRecord (world : World) (field : Field) (inner : SchemaId) : Prop where
  type : field.type = .record
  record : ∃ recordClass fields, world.heap.look field.sample = .record recordClass fields ∧
    recordClass.number = inner
  unchecked : field.checks = []
  unlimited : field.declaration.allowed = none
  held : field.declaration.mode ≠ .optional

section Nesting

variable {field : Field} {inner : SchemaId} {key : String} {entries parts : List (Value × Value)}
  {before middle : Trace}

theorem NestsRecord.admits (nests : NestsRecord world field inner)
    (named : (config.keys.keyOf field.name).Yields before key middle)
    (mapping : world.heap.look (entryUnder key entries) = .mapping parts) :
    Admitted world config field path entries before (entryUnder key entries) .toParse middle := by
  obtain ⟨recordClass, fields, shape, _⟩ := nests.record
  have present : entryUnder key entries ≠ .null := by
    intro absent
    rw [absent] at mapping
    cases mapping
  have same : substitute world.heap field.declaration (entryUnder key entries) =
      entryUnder key entries := by
    simp [substitute, nests.unlimited]
  have fits : (field.type.fit world.heap (entryUnder key entries) field.sample).Yields middle
      .toParse middle := by
    simp [nests.type, ValueType.fit, shape, mapping, Value.isInstanceOf]
  have passes : (field.firstFailure world.heap (entryUnder key entries)).Yields middle .pass
      middle := by
    simp [Field.firstFailure, nests.unchecked, Field.firstFailureOf]
  rw [← same] at fits passes
  have admitted : Admitted world config field path entries before
      (substitute world.heap field.declaration (entryUnder key entries)) .toParse middle :=
    .intro (.given named present) fits passes
  rwa [same] at admitted

theorem parseField_held {value : Value} {fail : Failure} {after : Trace}
    (held : ¬ Pardons config field) :
    (parseField parse config field path value).Yields before (.failed fail) after ↔
      (parse field.type path field.sample value).Yields before (.error fail) after := by
  unfold Pardons at held
  constructor
  · intro ran
    obtain ⟨result, read, parsed, ran⟩ := Run.yields_bind.mp ran
    cases result with
    | ok stored => simp at ran
    | error other =>
        dsimp only at ran
        rw [if_neg held] at ran
        obtain ⟨same, rfl⟩ := Run.yields_pure.mp ran
        cases same
        exact parsed
  · intro failed
    refine failed.bind.trans ?_
    dsimp only
    rw [if_neg held]
    rfl

/-- Inside of its input the field fails exactly where the nested object does. -/
theorem NestsRecord.fails_inside {limit : Nat} {fail : Failure} {after : Trace}
    (nests : NestsRecord world field inner)
    (named : (config.keys.keyOf field.name).Yields before key middle)
    (mapping : world.heap.look (entryUnder key entries) = .mapping parts)
    (inside : fail.path ≠ path) :
    (guardField (parseTo world config (limit + 1)) world config field path entries).Yields before
        (.failed fail) after ↔
      (validateTo world config limit (world.schema inner) path (entryUnder key entries)).Yields
        middle (.error fail) after := by
  obtain ⟨recordClass, fields, shape, rfl⟩ := nests.record
  have parsed : parseTo world config (limit + 1) field.type path field.sample
        (entryUnder key entries) =
      validateTo world config limit (world.schema recordClass.number) path
        (entryUnder key entries) := by
    simp only [nests.type, parseTo, parseObject_of_record shape, validateTo]
  have admitted : Admitted world config field path entries before (entryUnder key entries) .toParse
      middle := nests.admits named mapping
  have held : ¬ Pardons config field := fun pardons => nests.held pardons.2.1
  rw [← parsed, ← parseField_held held]
  constructor
  · intro guarded
    rcases guardField_yields.mp guarded with settled | ⟨_, _, _, failed, _⟩
    · exact admitted.run_eq.symm.trans settled
    · cases failed
      exact absurd rfl inside
  · intro ran
    exact guardField_yields.mpr (.inl (admitted.run_eq.trans ran))

/-- Inside of its input the field fails as the nested object fails by itself. -/
theorem NestsRecord.fails_as_alone {id : SchemaId} {compiled : Compiled} {limit : Nat}
    {location inside code message : String} (portable : world.Portable config mark root)
    (inTree : InTree world config root id) (known : (world.schema id).compiled = some compiled)
    (member : field ∈ compiled.fields) (nests : NestsRecord world field inner)
    (named : (config.keys.keyOf field.name).Yields before key middle)
    (mapping : world.heap.look (entryUnder key entries) = .mapping parts) (further : inside ≠ "")
    (start : Trace) :
    (∃ after, (guardField (parseTo world config (limit + 1)) world config field
        (fieldPath location field.name) entries).Yields before
        (.failed ⟨fieldPath location field.name ++ "." ++ inside, code, message⟩) after) ↔
      ∃ after, (validateTo world config limit (world.schema inner) ""
        (entryUnder key entries)).Yields start (.error ⟨inside, code, message⟩) after := by
  have place : fieldPath location field.name ≠ "" :=
    fieldPath_ne_empty (portable.named inTree known member)
  have below : InTree world config root inner := by
    obtain ⟨recordClass, fields, shape, rfl⟩ := nests.record
    exact .field inTree known member (nests.type ▸ .record shape)
  rw [exists_congr fun _ => nests.fails_inside named mapping inside_ne_place]
  refine ((relocates_validateTo portable place below).yields_iff middle start).trans ?_
  constructor
  · intro found
    obtain ⟨outcome, after, yielded, same⟩ := found
    rw [Outcome.relocated_eq_inside further] at same
    exact ⟨after, same ▸ yielded⟩
  · intro found
    obtain ⟨after, yielded⟩ := found
    exact ⟨_, after, yielded, (Outcome.relocated_eq_inside further).mpr rfl⟩

section Depths

variable {id : SchemaId} {location : String} {data value : Value} {levels depth : Nat}

/-- Data that does not go round in circles has a depth that is enough for it. -/
theorem Fathomed.of_orderly (orderly : Orderly world config)
    (within : world.heap.Within levels value) (enough : levels ≤ depth) :
    Fathomed world config (world.schema id) location value depth := by
  intro more deeper
  simp only [validateTo]
  rw [parseTo_eq_parseOver more, parseTo_eq_parseOver depth]
  exact validateWith_parseOver orderly _ _ within (Nat.le_trans enough deeper) enough

/-- What a mapping holds has depth enough left inside of it, and by itself. -/
theorem Fathomed.of_entry (orderly : Orderly world config)
    (mapping : world.heap.look data = .mapping parts) (held : value ∈ Value.interleave parts)
    (within : world.heap.Within levels value) :
    Fathomed world config (world.schema id) location value
      (min (limit world data - 1) (limit world value)) := by
  have inside : world.heap.Within (world.heap.depth + data.depth - 1) value :=
    within.bounded_in (by rwa [mapping])
  rcases Nat.le_total (limit world data - 1) (limit world value) with less | more
  · refine .of_orderly orderly inside ?_
    rw [Nat.min_eq_left less]
    simp only [limit, Heap.reach]
    omega
  · refine .of_orderly orderly within.bounded ?_
    rw [Nat.min_eq_right more]
    simp only [limit, Heap.reach]
    omega

end Depths

end Nesting

end Validation

namespace Nodes

theorem portable : world.Portable (telling true) .warned 1 where
  sink _ := rfl
  warning _ := rfl
  keys _ := constant.pure
  finisher _ := constant.bind (constant_record rfl) fun _ => constant.pure
  registered type member := by
    have listed : type ∈ Catalogue.builtIn := member
    refine ⟨Catalogue.obeys_builtIn listed, ?_⟩
    simp only [Catalogue.builtIn, List.mem_cons, List.not_mem_nil, or_false] at listed
    rcases listed with rfl | rfl | rfl | rfl <;> trivial
  named _ known member := by
    cases compiled_eq known
    exact with_name _ member
  fields _ known member := by
    cases compiled_eq known
    refine ⟨obeys member, ?_⟩
    simp only [fields, List.mem_cons, List.not_mem_nil, or_false] at member
    rcases member with rfl | rfl | rfl | rfl <;> trivial

/-- The home of a node that has gone astray. -/
def home : Value :=
  .mapping [(.text "value", .text "c"), (.text "tags", .list [.text "d", .int 5])]

def homeField : Field := ⟨"home", { sample := .ref 0, mode := .defaulted }, .ref 0, .record, []⟩

theorem nestsRecord : Validation.NestsRecord world homeField 1 where
  type := rfl
  record := ⟨_, _, rfl, rfl⟩
  unchecked := rfl
  unlimited := rfl
  held := by simp [homeField]

theorem within_home : world.heap.Within 3 home := by
  simp [Heap.Within, Heap.look, home, Value.parts, Value.interleave]

theorem orderly_telling : Validation.Orderly world (telling true) :=
  ⟨orderly.registered, orderly.compiled, orderly.holds⟩

end Nodes

end Exemplar
