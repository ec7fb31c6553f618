import Exemplar.Proofs.Faults
import Exemplar.Proofs.Types

/-!
Laws of computations. A law that holds of what comes to an end at once, and of sequences of what it
holds of, is passed on from the operations that types, checks and hooks consist of to everything that
is put together from them.
-/

namespace Exemplar

namespace Run

/-- What may be required of computations: it holds of values, of faults other than failures of
validation, and of sequences whose members it holds of. -/
structure Law where
  Holds : {α : Type} → Run α → Prop
  pure : ∀ {α : Type} {value : α}, Holds (Pure.pure value)
  throw : ∀ {α : Type} {fault : Fault}, (∀ fail, fault ≠ .rejected fail) →
    Holds (MonadExcept.throw fault : Run α)
  bind : ∀ {α β : Type} {action : Run α} {next : α → Run β}, Holds action →
    (∀ {before value after}, action.Yields before value after → Holds (next value)) →
    Holds (action >>= next)

theorem Law.lift {α : Type} (law : Law) {result : Except Fault α}
    (other : ∀ fail, result ≠ .error (.rejected fail)) : law.Holds (liftM result : Run α) := by
  cases result with
  | ok value => exact law.pure
  | error fault => exact law.throw fun fail same => other fail (same ▸ rfl)

section Adding

variable {α β : Type} {allowed : Event → Prop} {action : Run α} {next : α → Run β}

/-- From every trace the computation adds events of the allowed kind. -/
def AddsOnly (allowed : Event → Prop) (action : Run α) : Prop :=
  ∀ before, ∃ result events, action.run.run before = (result, before ++ events) ∧
    ∀ event ∈ events, allowed event

theorem addsOnly_pure {value : α} : (pure value : Run α).AddsOnly allowed :=
  fun _ => ⟨.ok value, [], by rw [List.append_nil]; rfl, by simp⟩

theorem addsOnly_throw {fault : Fault} : (throw fault : Run α).AddsOnly allowed :=
  fun _ => ⟨.error fault, [], by rw [List.append_nil]; rfl, by simp⟩

theorem addsOnly_lift {result : Except Fault α} :
    (liftM result : Run α).AddsOnly allowed := by
  cases result with
  | ok value => exact addsOnly_pure
  | error fault => exact addsOnly_throw

theorem addsOnly_record {event : Event} (allows : allowed event) :
    (record event).AddsOnly allowed :=
  fun _ => ⟨.ok (), [event], rfl, by simpa using allows⟩

/-- What comes next matters for the values only that the computation can come to. -/
theorem AddsOnly.bind (first : action.AddsOnly allowed)
    (rest : ∀ {before value after}, action.Yields before value after →
      (next value).AddsOnly allowed) : (action >>= next).AddsOnly allowed := by
  intro before
  obtain ⟨result, events, ran, each⟩ := first before
  cases result with
  | error fault =>
      have broke : action.Breaks before fault (before ++ events) := ran
      exact ⟨.error fault, events, broke.bind, each⟩
  | ok value =>
      have yielded : action.Yields before value (before ++ events) := ran
      obtain ⟨result, more, ran, others⟩ := rest yielded (before ++ events)
      refine ⟨result, events ++ more, ?_, ?_⟩
      · rw [yielded.bind, ran, List.append_assoc]
      · intro event member
        rcases List.mem_append.mp member with early | late
        · exact each event early
        · exact others event late

def adding (allowed : Event → Prop) : Law where
  Holds := AddsOnly allowed
  pure := addsOnly_pure
  throw _ := addsOnly_throw
  bind := AddsOnly.bind

end Adding

end Run

open Run (Law)

variable {law : Law}

structure Measure.Obeys (law : Law) (measure : Measure) : Prop where
  size : ∀ heap value, law.Holds (measure.size heap value)
  compared : ∀ heap value, law.Holds (measure.compared heap value)

structure Collection.Obeys (law : Law) (collection : Collection) : Prop where
  recognizes : ∀ heap sample, law.Holds (collection.recognizes heap sample)
  empty : law.Holds collection.empty
  insert : ∀ heap gathered value, law.Holds (collection.insert heap gathered value)
  first : ∀ heap sample, law.Holds (collection.first heap sample)

structure Custom.Obeys (law : Law) (custom : Custom) : Prop where
  suits : ∀ heap sample, law.Holds (custom.suits heap sample)
  standIn : ∀ heap sample, law.Holds (custom.standIn heap sample)
  fit : ∀ heap value sample, law.Holds (custom.fit heap value sample)
  measure : custom.measure.Obeys law
  parse : ∀ config heap path sample value, law.Holds (custom.parse config heap path sample value)

/-- The operations that the type is made of obey the law. -/
inductive ValueType.Obeys (law : Law) : ValueType → Prop
  | primitive {plain} : Obeys law (.primitive plain)
  | record : Obeys law .record
  | bigInteger : Obeys law .bigInteger
  | unbound {collection} : collection.Obeys law → Obeys law (.unbound collection)
  | bound {collection element} : collection.Obeys law → Obeys law element →
      Obeys law (.bound collection element)
  | custom {own} : own.Obeys law → Obeys law (.custom own)

inductive Check.Obeys (law : Law) : Check → Prop
  | bySize {side word limit size} : (∀ heap value, law.Holds (size heap value)) →
      Obeys law (.bySize side word limit size)
  | byValue {side limit compared} : (∀ heap value, law.Holds (compared heap value)) →
      Obeys law (.byValue side limit compared)
  | allowed {choices listing} : Obeys law (.allowed choices listing)
  | matching {pattern} : Obeys law (.matching pattern)
  | noRegex {className} : Obeys law (.noRegex className)
  | integer : Obeys law .integer
  | custom {hook} : (∀ heap value, law.Holds (hook.check heap value)) → Obeys law (.custom hook)

structure Field.Obeys (law : Law) (field : Field) : Prop where
  type : field.type.Obeys law
  checks : ∀ check ∈ field.checks, check.Obeys law

theorem Measure.obeys_length {heap : Heap} {value : Value} :
    law.Holds (Measure.length heap value) := by
  unfold Measure.length
  split
  · exact law.pure
  · exact law.throw nofun

theorem Collection.obeys_firstElement {heap : Heap} {sample : Value} :
    law.Holds (Collection.firstElement heap sample) :=
  law.bind (law.lift Heap.iterate_ne_rejected) fun _ => law.pure

theorem Collection.obeys_append {heap : Heap} {gathered value : Value} :
    law.Holds (Collection.append heap gathered value) := by
  unfold Collection.append
  split
  · exact law.pure
  · exact law.pure
  · exact law.throw nofun

theorem Collection.obeys_addMember {heap : Heap} {gathered value : Value} :
    law.Holds (Collection.addMember heap gathered value) := by
  unfold Collection.addMember
  split
  · exact law.bind (law.lift Heap.addMember_ne_rejected) fun _ => law.pure
  · exact law.throw nofun

theorem Collection.obeys_array : Collection.array.Obeys law where
  recognizes _ _ := law.pure
  empty := law.pure
  insert _ _ _ := obeys_append
  first _ _ := obeys_firstElement

theorem Collection.obeys_set : Collection.set.Obeys law where
  recognizes _ _ := law.pure
  empty := law.pure
  insert _ _ _ := obeys_addMember
  first _ _ := obeys_firstElement

theorem Collection.Obeys.countInserted {collection : Collection} {heap : Heap} {gathered : Value}
    {elements : List Value} (obeys : collection.Obeys law) :
    law.Holds (collection.countInserted heap gathered elements) := by
  induction elements generalizing gathered with
  | nil => exact law.pure
  | cons element rest ih => exact law.bind (obeys.insert heap gathered element) fun _ => ih

theorem Collection.Obeys.size {collection : Collection} {heap : Heap} {value : Value}
    (obeys : collection.Obeys law) : law.Holds (collection.size heap value) := by
  unfold Collection.size
  split
  · exact Measure.obeys_length
  · split
    · exact Measure.obeys_length
    · split
      · exact law.pure
      · exact law.throw nofun
      · exact Measure.obeys_length
  · exact law.bind obeys.empty fun _ => law.bind (law.lift Heap.iterate_ne_rejected) fun _ =>
      law.bind obeys.countInserted fun _ => Measure.obeys_length

namespace ValueType

variable {type : ValueType} {heap : Heap} {sample value : Value}

theorem Obeys.suits (obeys : type.Obeys law) : law.Holds (type.suits heap sample) := by
  cases obeys with
  | primitive => exact law.pure
  | record | bigInteger =>
      simp only [ValueType.suits]
      split <;> exact law.pure
  | unbound collection | bound collection _ => exact collection.recognizes heap sample
  | custom own => exact own.suits heap sample

theorem Obeys.standIn (obeys : type.Obeys law) : law.Holds (type.standIn heap sample) := by
  cases obeys with
  | primitive => exact law.lift Primitive.standIn_ne_rejected
  | record | bigInteger => exact law.pure
  | unbound collection | bound collection _ => exact collection.empty
  | custom own => exact own.standIn heap sample

theorem Obeys.fit (obeys : type.Obeys law) : law.Holds (type.fit heap value sample) := by
  cases obeys with
  | primitive | bigInteger | unbound _ | bound _ _ => exact law.pure
  | record =>
      simp only [ValueType.fit]
      split
      · exact law.pure
      · split <;> exact law.pure
  | custom own => exact own.fit heap value sample

theorem Obeys.measure (obeys : type.Obeys law) : type.measure.Obeys law := by
  cases obeys with
  | primitive | record => exact ⟨fun _ _ => Measure.obeys_length, fun _ _ => law.pure⟩
  | bigInteger =>
      exact ⟨fun _ _ => Measure.obeys_length, fun _ _ => law.lift BigInteger.compared_ne_rejected⟩
  | unbound collection | bound collection _ =>
      exact ⟨fun _ _ => collection.size, fun _ _ => law.pure⟩
  | custom own => exact own.measure

end ValueType

section Checks

variable {heap : Heap} {value : Value} {name path : String}

theorem Heap.obeys_display : law.Holds (liftM (heap.display value) : Run String) :=
  law.lift display_ne_rejected

theorem Heap.obeys_order {side : Side} {left right : Value} :
    law.Holds (liftM (heap.order side left right) : Run Bool) :=
  law.lift orderTo_ne_rejected

theorem Check.Obeys.apply {check : Check} (obeys : check.Obeys law) :
    law.Holds (check.apply name heap value) := by
  cases obeys with
  | bySize size =>
      refine law.bind (size heap value) fun _ => law.bind Heap.obeys_order fun _ => ?_
      split
      · exact law.bind (law.lift Heap.numeral_ne_rejected) fun _ =>
          law.bind Heap.obeys_display fun _ => law.pure
      · exact law.pure
  | byValue compared =>
      refine law.bind (compared heap value) fun _ => ?_
      split
      · exact law.pure
      · refine law.bind Heap.obeys_order fun _ => ?_
        split
        · exact law.bind Heap.obeys_display fun _ => law.bind Heap.obeys_display fun _ => law.pure
        · exact law.pure
  | allowed | integer =>
      simp only [Check.apply]
      split
      · exact law.pure
      · exact law.bind Heap.obeys_display fun _ => law.pure
  | matching =>
      refine law.bind Heap.obeys_display fun _ => ?_
      split <;> exact law.pure
  | noRegex => exact law.throw nofun
  | custom hook => exact hook heap value

theorem Field.obeys_firstFailureOf {checks : List Check}
    (obey : ∀ check ∈ checks, check.Obeys law) :
    law.Holds (Field.firstFailureOf name heap value checks) := by
  induction checks with
  | nil => exact law.pure
  | cons check rest ih =>
      refine law.bind (obey check (by simp)).apply fun {_ verdict _} _ => ?_
      cases verdict with
      | pass => exact ih fun later member => obey later (List.mem_cons_of_mem check member)
      | failure fail => exact law.pure
      | other answer => exact law.pure

theorem Field.Obeys.firstFailure {field : Field} (obeys : field.Obeys law) :
    law.Holds (field.firstFailure heap value) :=
  obeys_firstFailureOf obeys.checks

theorem Field.obeys_locate {verdict : Verdict} : law.Holds (Field.locate heap path verdict) := by
  cases verdict with
  | pass => exact law.pure
  | failure fail => exact law.pure
  | other answer => exact law.throw nofun

end Checks

open Validation

theorem ValueType.Obeys.own {type : ValueType} {collection : Collection}
    {element : Option ValueType} (obeys : type.Obeys law)
    (gathers : OfCollection type collection element) : collection.Obeys law := by
  cases gathers with
  | unbound =>
      cases obeys with
      | unbound kind => exact kind
  | bound =>
      cases obeys with
      | bound kind _ => exact kind

namespace Catalogue

variable {catalogue : Catalogue} {heap : Heap} {sample : Value} {type bound : ValueType}
  {before after : Trace}

theorem obeys_find (obey : ∀ type ∈ catalogue, type.Obeys law) :
    law.Holds (find? heap sample catalogue) := by
  induction catalogue with
  | nil => exact law.pure
  | cons first rest ih =>
      refine law.bind (obey first (by simp)).suits fun {_ suits _} _ => ?_
      cases suits with
      | true => exact law.pure
      | false => exact ih fun later member => obey later (List.mem_cons_of_mem first member)

theorem obeys_resolve (obey : ∀ type ∈ catalogue, type.Obeys law) :
    law.Holds (resolve catalogue heap sample) := by
  refine law.bind (obeys_find obey) fun {_ found _} _ => ?_
  cases found with
  | none => exact law.bind (law.lift Heap.literal_ne_rejected) fun _ => law.throw nofun
  | some type => exact law.pure

theorem obeys_bindTo {fuel : Nat} (obey : ∀ type ∈ catalogue, type.Obeys law)
    (start : type.Obeys law) : law.Holds (bindTo catalogue heap fuel type sample) := by
  induction fuel generalizing type sample with
  | zero => exact law.throw nofun
  | succ fuel ih =>
      have opened {collection : Collection} {element : Option ValueType}
          (gathers : OfCollection type collection element) :
          law.Holds (bindTo catalogue heap (fuel + 1) type sample) := by
        rw [bindTo_of_collection gathers]
        refine law.bind ((start.own gathers).first heap sample) fun {_ first _} _ => ?_
        cases first with
        | none => exact law.pure
        | some representative =>
            refine law.bind (obeys_resolve obey) fun resolved => ?_
            exact law.bind (ih (obey _ (mem_of_resolve resolved))) fun _ => law.pure
      cases type with
      | primitive _ | record | bigInteger | custom _ => exact law.pure
      | unbound collection => exact opened .unbound
      | bound collection element => exact opened .bound

theorem obeys_typeFor (obey : ∀ type ∈ catalogue, type.Obeys law) :
    law.Holds (typeFor catalogue heap sample) :=
  law.bind (obeys_resolve obey) fun resolved =>
    obeys_bindTo obey (obey _ (mem_of_resolve resolved))

theorem obeys_builtIn (member : type ∈ builtIn) : type.Obeys law := by
  simp only [builtIn, List.mem_cons, List.not_mem_nil, or_false] at member
  rcases member with rfl | rfl | rfl | rfl
  · exact .unbound Collection.obeys_set
  · exact .unbound Collection.obeys_array
  · exact .record
  · exact .primitive

theorem Binds.obeys (binds : Binds catalogue heap type sample bound)
    (obey : ∀ type ∈ catalogue, type.Obeys law) (start : type.Obeys law) : bound.Obeys law := by
  induction binds with
  | plain _ | bare _ _ => exact start
  | element gathers _ member _ ih => exact .bound (start.own gathers) (ih (obey _ member))

end Catalogue

namespace Validation

variable {world : World} {config : Configuration}

theorem obeys_inputOf {field : Field} {path : String} {entries : List (Value × Value)}
    (keys : ∀ name, law.Holds (config.keys.keyOf name)) (obeys : field.Obeys law) :
    law.Holds (inputOf world config field path entries) := by
  rw [inputOf_eq]
  refine law.bind (keys field.name) fun {_ key _} _ => ?_
  by_cases absent : entryUnder key entries = .null
  · rw [absent, fromEntry_null, withoutInput]
    split
    · exact law.pure
    · exact law.pure
    · exact law.bind obeys.type.standIn fun _ => law.pure
  · rw [fromEntry_of_ne_null absent]
    exact law.pure

theorem obeys_insertAll {heap : Heap} {collection : Collection} {gathered : Value}
    {values : List Value} (obeys : collection.Obeys law) :
    law.Holds (insertAll heap collection gathered values) := by
  induction values generalizing gathered with
  | nil => exact law.pure
  | cons value rest ih => exact law.bind (obeys.insert heap gathered value) fun _ => ih

end Validation

/-- Fields of nodes consist of built-in operations. -/
theorem Nodes.obeys {field : Field} (member : field ∈ fields) : field.Obeys law := by
  have sizes : ∀ heap value, law.Holds (Collection.array.size heap value) :=
    fun _ _ => Collection.obeys_array.size
  simp only [fields, List.mem_cons, List.not_mem_nil, or_false] at member
  rcases member with rfl | rfl | rfl | rfl
  · exact ⟨.primitive, by simp⟩
  · refine ⟨.bound Collection.obeys_array .primitive, ?_⟩
    simp only [List.forall_mem_cons, List.not_mem_nil, false_implies, implies_true, and_true]
    exact ⟨.bySize sizes, .bySize sizes⟩
  · exact ⟨.record, by simp⟩
  · exact ⟨.record, by simp⟩

end Exemplar
