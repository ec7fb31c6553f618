import Exemplar.Proofs.Laws

/-!
Computations that give no warning. Hooks, checks and operations of types add to the trace what they
please except warnings; silence being a law of computations, what is put together from such
operations gives no warning either.
-/

namespace Exemplar

def Event.isWarning : Event → Bool
  | .warned _ | .logged .warning _ => true
  | _ => false

namespace Run

variable {α β : Type}

/-- From the trace, the computation adds events none of which is a warning. -/
def SilentFrom (action : Run α) (before : Trace) : Prop :=
  ∃ result events, action.run.run before = (result, before ++ events) ∧
    ∀ event ∈ events, event.isWarning = false

def Silent (action : Run α) : Prop := ∀ before, action.SilentFrom before

/-- From the trace, the computation adds events and a warning is among them. -/
def WarnsFrom (action : Run α) (before : Trace) : Prop :=
  ∃ result events, action.run.run before = (result, before ++ events) ∧
    ∃ event ∈ events, event.isWarning = true

variable {action : Run α} {next : α → Run β} {before after : Trace} {value : α}

theorem silent_pure : (pure value : Run α).Silent := addsOnly_pure

theorem silent_throw {fault : Fault} : (throw fault : Run α).Silent := addsOnly_throw

theorem silent_lift {result : Except Fault α} : (liftM result : Run α).Silent :=
  addsOnly_lift

theorem silent_record {event : Event} (quiet : event.isWarning = false) :
    (record event).Silent :=
  addsOnly_record quiet

theorem silent_debug {text : String} : (debug text).Silent := silent_record rfl

/-- What comes next has to be silent for the values only that it can come to. -/
theorem Silent.bind (first : action.Silent)
    (rest : ∀ {before value after}, action.Yields before value after → (next value).Silent) :
    (action >>= next).Silent :=
  AddsOnly.bind first rest

def silence : Law where
  Holds := Silent
  pure := silent_pure
  throw _ := silent_throw
  bind := Silent.bind

end Run

structure Measure.Silent (measure : Measure) : Prop where
  size : ∀ heap value, (measure.size heap value).Silent
  compared : ∀ heap value, (measure.compared heap value).Silent

structure Collection.Silent (collection : Collection) : Prop where
  recognizes : ∀ heap sample, (collection.recognizes heap sample).Silent
  empty : collection.empty.Silent
  insert : ∀ heap gathered value, (collection.insert heap gathered value).Silent
  first : ∀ heap sample, (collection.first heap sample).Silent

structure Custom.Silent (custom : Custom) : Prop where
  suits : ∀ heap sample, (custom.suits heap sample).Silent
  standIn : ∀ heap sample, (custom.standIn heap sample).Silent
  fit : ∀ heap value sample, (custom.fit heap value sample).Silent
  measure : custom.measure.Silent
  parse : ∀ config heap path sample value, (custom.parse config heap path sample value).Silent

/-- The operations that a type is made of give no warning. -/
inductive ValueType.Silent : ValueType → Prop
  | primitive {plain} : Silent (.primitive plain)
  | record : Silent .record
  | bigInteger : Silent .bigInteger
  | unbound {collection} : collection.Silent → Silent (.unbound collection)
  | bound {collection element} : collection.Silent → Silent element →
      Silent (.bound collection element)
  | custom {own} : own.Silent → Silent (.custom own)

inductive Check.Silent : Check → Prop
  | bySize {side word limit size} : (∀ heap value, (size heap value).Silent) →
      Silent (.bySize side word limit size)
  | byValue {side limit compared} : (∀ heap value, (compared heap value).Silent) →
      Silent (.byValue side limit compared)
  | allowed {choices listing} : Silent (.allowed choices listing)
  | matching {pattern} : Silent (.matching pattern)
  | noRegex {className} : Silent (.noRegex className)
  | integer : Silent .integer
  | custom {hook} : (∀ heap value, (hook.check heap value).Silent) → Silent (.custom hook)

structure Field.Silent (field : Field) : Prop where
  type : field.type.Silent
  checks : ∀ check ∈ field.checks, check.Silent

/-- The types that are registered and the fields that are compiled give no warning by themselves. -/
structure World.Silent (world : World) : Prop where
  types {id type} : type ∈ world.catalogue id → type.Silent
  fields {id compiled field} : (world.schema id).compiled = some compiled →
    field ∈ compiled.fields → field.Silent

open Run

theorem Measure.Silent.obeys {measure : Measure} (silent : measure.Silent) :
    measure.Obeys silence :=
  ⟨silent.size, silent.compared⟩

section Collections

variable {collection : Collection}

theorem Collection.Silent.obeys (silent : collection.Silent) : collection.Obeys silence :=
  ⟨silent.recognizes, silent.empty, silent.insert, silent.first⟩

theorem Collection.Obeys.silent (obeys : collection.Obeys silence) : collection.Silent :=
  ⟨obeys.recognizes, obeys.empty, obeys.insert, obeys.first⟩

theorem Collection.silent_array : Collection.array.Silent := Collection.obeys_array.silent

theorem Collection.silent_set : Collection.set.Silent := Collection.obeys_set.silent

theorem Collection.Silent.size {heap : Heap} {value : Value} (silent : collection.Silent) :
    (collection.size heap value).Silent :=
  silent.obeys.size

end Collections

theorem Custom.Silent.obeys {own : Custom} (silent : own.Silent) : own.Obeys silence :=
  ⟨silent.suits, silent.standIn, silent.fit, silent.measure.obeys, silent.parse⟩

theorem Custom.Obeys.silent {own : Custom} (obeys : own.Obeys silence) : own.Silent :=
  ⟨obeys.suits, obeys.standIn, obeys.fit, ⟨obeys.measure.size, obeys.measure.compared⟩, obeys.parse⟩

namespace ValueType

variable {type : ValueType} {heap : Heap} {sample value : Value}

theorem Silent.obeys (silent : type.Silent) : type.Obeys silence := by
  induction silent with
  | primitive => exact .primitive
  | record => exact .record
  | bigInteger => exact .bigInteger
  | unbound collection => exact .unbound collection.obeys
  | bound collection _ ih => exact .bound collection.obeys ih
  | custom own => exact .custom own.obeys

theorem Obeys.silent (obeys : type.Obeys silence) : type.Silent := by
  induction obeys with
  | primitive => exact .primitive
  | record => exact .record
  | bigInteger => exact .bigInteger
  | unbound collection => exact .unbound collection.silent
  | bound collection _ ih => exact .bound collection.silent ih
  | custom own => exact .custom own.silent

theorem Silent.fit (silent : type.Silent) : (type.fit heap value sample).Silent :=
  silent.obeys.fit

end ValueType

section Checks

variable {heap : Heap} {value : Value} {path : String}

theorem Check.Silent.obeys {check : Check} (silent : check.Silent) : check.Obeys silence := by
  cases silent with
  | bySize size => exact .bySize size
  | byValue compared => exact .byValue compared
  | allowed => exact .allowed
  | matching => exact .matching
  | noRegex => exact .noRegex
  | integer => exact .integer
  | custom hook => exact .custom hook

theorem Field.Silent.obeys {field : Field} (silent : field.Silent) : field.Obeys silence :=
  ⟨silent.type.obeys, fun check member => (silent.checks check member).obeys⟩

theorem Field.Silent.firstFailure {field : Field} (silent : field.Silent) :
    (field.firstFailure heap value).Silent :=
  silent.obeys.firstFailure

theorem Field.silent_locate {verdict : Verdict} : (Field.locate heap path verdict).Silent :=
  @Field.obeys_locate silence heap path verdict

end Checks

namespace Catalogue

variable {catalogue : Catalogue} {heap : Heap} {sample : Value} {type : ValueType}
  {before after : Trace}

theorem obeys_of_silent (silent : ∀ type ∈ catalogue, type.Silent) :
    ∀ type ∈ catalogue, type.Obeys silence :=
  fun type member => (silent type member).obeys

theorem silent_bindTo {fuel : Nat} (silent : ∀ type ∈ catalogue, type.Silent)
    (start : type.Silent) : (bindTo catalogue heap fuel type sample).Silent :=
  obeys_bindTo (obeys_of_silent silent) start.obeys

/-- What a silent type is bound to is silent. -/
theorem Silent.of_bindTo {fuel : Nat} {bound : ValueType}
    (silent : ∀ type ∈ catalogue, type.Silent) (start : type.Silent)
    (ran : (bindTo catalogue heap fuel type sample).Yields before bound after) : bound.Silent :=
  ((binds_of_bindTo ran).obeys (obeys_of_silent silent) start.obeys).silent

theorem silent_typeFor (silent : ∀ type ∈ catalogue, type.Silent) :
    (typeFor catalogue heap sample).Silent :=
  obeys_typeFor (obeys_of_silent silent)

theorem Silent.of_typeFor (silent : ∀ type ∈ catalogue, type.Silent)
    (ran : (typeFor catalogue heap sample).Yields before type after) : type.Silent := by
  obtain ⟨found, member, binds⟩ := binds_of_typeFor ran
  exact (binds.obeys (obeys_of_silent silent) (silent found member).obeys).silent

end Catalogue

namespace Validation

variable {world : World} {config : Configuration} {field : Field} {path : String}
  {entries : List (Value × Value)}

theorem silent_inputOf (keys : ∀ name, (config.keys.keyOf name).Silent) (silent : field.Silent) :
    (inputOf world config field path entries).Silent :=
  @obeys_inputOf silence world config field path entries keys silent.obeys

theorem silent_insertAll {heap : Heap} {collection : Collection} {gathered : Value}
    {values : List Value} (silent : collection.Silent) :
    (insertAll heap collection gathered values).Silent :=
  obeys_insertAll silent.obeys

end Validation

end Exemplar
