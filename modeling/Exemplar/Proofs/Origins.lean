import Exemplar.Proofs.Checks
import Exemplar.Proofs.Containment

/-!
Where failures come from. A field makes a failure of its own if its input is missing or does not fit,
if a check answers with one, if its processing breaks down, or if its value does not parse. What an
object comes to, if it is a failure, was made by a field of its own or of an object further in, and
all that lies in between has let it through as it was.
-/

namespace Exemplar

/-- A big integer fails by its own text only. -/
theorem BigInteger.failure_of_parse {heap : Heap} {path : String} {value : Value} {fail : Failure}
    (told : BigInteger.parse heap path value = .ok (.error fail)) :
    ∃ message, fail = .bigInteger path message := by
  simp only [BigInteger.parse] at told
  split at told
  · split at told
    · cases read : heap.toInteger value <;> simp [read, Except.map] at told
    · cases told
      exact ⟨_, rfl⟩
  · cases read : heap.toInteger value <;> simp [read, Except.map] at told

namespace Validation

/-- A value that is parsed by a type: to a depth, at a place, for a sample, after a trace. -/
structure Parsing where
  limit : Nat
  type : ValueType
  path : String
  sample : Value
  value : Value
  before : Trace

/-- The application's own check of a field answers for its value, once all checks before it have let
the value pass. The failure is moved to the place of the field. -/
inductive Answered (world : World) (config : Configuration) (field : Field) (path : String)
    (entries : List (Value × Value)) (before : Trace) : Failure → Trace → Prop
  | intro {given found fit fitted hook done later first fail after} :
      Sought world config field path entries before (.inr given) found →
      (field.type.fit world.heap (substitute world.heap field.declaration given)
        field.sample).Yields found fit fitted → (∀ reason, fit ≠ .refused reason) →
      field.declaration.custom = some hook → field.checks = done ++ .custom hook :: later →
      (Field.firstFailureOf field.name world.heap (substitute world.heap field.declaration given)
        done).Yields fitted .pass first →
      (hook.check world.heap (substitute world.heap field.declaration given)).Yields first
        (.failure fail) after →
      Answered world config field path entries before (fail.movedTo path) after

theorem answered_of_code {world : World} {config : Configuration} {catalogue : Catalogue}
    {heap : Heap} {field : Field} {path : String} {entries : List (Value × Value)}
    {before found fitted after : Trace} {given : Value} {fit : Fit} {fail : Failure}
    (compiled : field.CompiledBy catalogue heap)
    (sought : Sought world config field path entries before (.inr given) found)
    (compared : (field.type.fit world.heap (substitute world.heap field.declaration given)
      field.sample).Yields found fit fitted)
    (fits : ∀ reason, fit ≠ .refused reason)
    (decided : (field.firstFailure world.heap
      (substitute world.heap field.declaration given)).Yields fitted (.failure fail) after)
    (foreign : fail.code ∉ Check.codes) :
    Answered world config field path entries before (fail.movedTo path) after := by
  obtain ⟨done, check, later, first, order, passed, applied⟩ :=
    Field.failed_at_of_firstFailureOf decided
  rcases Check.code_or_custom applied with own | ⟨hook, rfl, answered⟩
  · exact absurd own foreign
  · have member : .custom hook ∈ field.checks := by simp [order]
    have declared := Check.custom_of_compile compiled.checked member
    exact .intro sought compared fits declared order passed answered

section Failing

variable [Fault.Telling]

def Parsing.run (parsing : Parsing) (world : World) (config : Configuration) : Run Outcome :=
  parseTo world config parsing.limit parsing.type parsing.path parsing.sample parsing.value

/-- Under a strict configuration a collection fails with any of its elements, which may in turn be
collections. -/
inductive Parsing.Hinges (world : World) (config : Configuration) : Parsing → Parsing → Prop
  | itself {parsing} : Hinges world config parsing parsing
  | element {limit type collection element path sample value before inner representative index
      gathered item rest reached fitted last} :
      OfCollection type collection element →
      ComesTo (parseTo world config limit) world config collection element path sample value before
        inner representative index gathered item rest reached →
      (inner.fit world.heap item representative).Yields reached .toParse fitted →
      config.lenient = false →
      Hinges world config
        ⟨limit, inner, elementPath path index, representative, item, fitted⟩ last →
      Hinges world config ⟨limit + 1, type, path, sample, value, before⟩ last

/-- How parsing fails of itself: not inside of an object, nor by an element that fits and does not
parse. -/
inductive Parsing.Fails (world : World) (config : Configuration) :
    Parsing → Failure → Trace → Prop
  | bigInteger {limit path sample value before fail} :
      BigInteger.parse world.heap path value = .ok (.error fail) →
      Fails world config ⟨limit, .bigInteger, path, sample, value, before⟩ fail before
  | custom {limit own path sample value before fail after} :
      (own.parse config world.heap path sample value).Yields before (.error fail) after →
      Fails world config ⟨limit, .custom own, path, sample, value, before⟩ fail after
  | misfit {limit type collection element path sample value before inner representative index
      gathered item rest reached reason after} :
      OfCollection type collection element →
      ComesTo (parseTo world config limit) world config collection element path sample value before
        inner representative index gathered item rest reached →
      (inner.fit world.heap item representative).Yields reached (.refused reason) after →
      Fails world config ⟨limit + 1, type, path, sample, value, before⟩
        (.type (elementPath path index) reason) after

/-- What is parsed is to become a record, and is validated as an object. -/
inductive Parsing.Opens (world : World) : Parsing → Call → Prop
  | intro {limit path sample value before recordClass fields} :
      world.heap.look sample = .record recordClass fields →
      Opens world ⟨limit + 1, .record, path, sample, value, before⟩
        ⟨limit, world.schema recordClass.number, path, value, before⟩

/-- The parsing of the value that a field lets in. -/
def Visit.parsed (visit : Visit) (value : Value) (middle : Trace) : Parsing :=
  ⟨visit.limit, visit.field.type, visit.path, visit.field.sample, value, middle⟩

/-- How a field fails of itself, whatever becomes of the objects inside of it. -/
inductive Visit.Makes (world : World) (config : Configuration) (visit : Visit) :
    Failure → Trace → Prop
  | missing {fail after} :
      Sought world config visit.field visit.path visit.entries visit.before (.inl (.failed fail))
        after →
      Makes world config visit fail after
  | refused {given found reason after} :
      Sought world config visit.field visit.path visit.entries visit.before (.inr given) found →
      (visit.field.type.fit world.heap (substitute world.heap visit.field.declaration given)
        visit.field.sample).Yields found (.refused reason) after →
      Makes world config visit (.type visit.path reason) after
  | rejected {given found fit fitted fail after} :
      Sought world config visit.field visit.path visit.entries visit.before (.inr given) found →
      (visit.field.type.fit world.heap (substitute world.heap visit.field.declaration given)
        visit.field.sample).Yields found fit fitted → (∀ reason, fit ≠ .refused reason) →
      (visit.field.firstFailure world.heap
        (substitute world.heap visit.field.declaration given)).Yields fitted (.failure fail) after →
      Makes world config visit (fail.movedTo visit.path) after
  | unparsed {value middle last fail after} :
      Admitted world config visit.field visit.path visit.entries visit.before value .toParse
        middle →
      ¬ Pardons config visit.field →
      Parsing.Hinges world config (visit.parsed value middle) last →
      Parsing.Fails world config last fail after →
      Makes world config visit fail after
  | broken {fault middle text} : (visit.settle world config).Breaks visit.before fault middle →
      fault.told = .ok text →
      Makes world config visit (.unknown visit.path text) (middle ++ [visit.line])

/-- An object inside of a field whose failures are failures of the field. -/
inductive Visit.Relays (world : World) (config : Configuration) (visit : Visit) : Call → Prop
  | intro {value middle last call} :
      Admitted world config visit.field visit.path visit.entries visit.before value .toParse
        middle →
      ¬ Pardons config visit.field →
      Parsing.Hinges world config (visit.parsed value middle) last → last.Opens world call →
      Relays world config visit call

/-- The data is no object of the schema, whatever its fields are. -/
inductive Call.Refused (world : World) (call : Call) : Failure → Trace → Prop
  | intro {compiled} : call.schema.compiled = some compiled →
      (∀ entries, world.heap.look call.data ≠ .mapping entries) →
      (∀ recordClass fields, world.heap.look call.data = .record recordClass fields →
        recordClass.extends call.schema.recordClass = false) →
      Refused world call
        (.type call.location s!"expected object but got {world.heap.shapeName call.data}") call.before

variable {world : World} {config : Configuration} {after : Trace} {fail : Failure}
  {parsing last : Parsing} {call : Call} {visit : Visit}

theorem Parsing.Fails.run (fails : Parsing.Fails world config parsing fail after) :
    (parsing.run world config).Yields parsing.before (.error fail) after := by
  cases fails with
  | @bigInteger limit _ _ _ _ _ told => cases limit <;> exact Run.yields_of_ok told
  | @custom limit _ _ _ _ _ _ _ answered => cases limit <;> exact answered
  | misfit gathers comes refused =>
      rw [Parsing.run, gathers.parseTo_eq, parseCollection_fails]
      exact ⟨_, _, _, _, _, _, _, comes, parseItem_fails_iff.mpr (.inl ⟨_, refused, rfl⟩)⟩

theorem Parsing.Opens.run_eq (opens : last.Opens world call) :
    last.run world config = call.run world config ∧ last.before = call.before := by
  cases opens with
  | intro shape => exact ⟨parseTo_record_eq shape, rfl⟩

theorem Parsing.Hinges.run (hinges : Parsing.Hinges world config parsing last)
    (failed : (last.run world config).Yields last.before (.error fail) after) :
    (parsing.run world config).Yields parsing.before (.error fail) after := by
  induction hinges with
  | itself => exact failed
  | element gathers comes compared strict _ ih =>
      exact (passesFailuresOn world config).failedElement gathers comes compared (ih failed) strict

/-- Values without fields or elements inside fail of themselves, to whatever depth. -/
theorem Parsing.fails_of_plain (plain : ¬ Nests parsing.type)
    (failed : (parsing.run world config).Yields parsing.before (.error fail) after) :
    Parsing.Fails world config parsing fail after := by
  obtain ⟨limit, type, path, sample, value, before⟩ := parsing
  cases type with
  | primitive _ => simp [Parsing.run] at failed
  | bigInteger =>
      have read : (liftM (BigInteger.parse world.heap path value) : Run Outcome).Yields before
          (.error fail) after := by
        cases limit <;> exact failed
      obtain ⟨told, rfl⟩ := Run.yields_lift.mp read
      exact .bigInteger told
  | custom own =>
      refine .custom ?_
      cases limit <;> exact failed
  | record | unbound _ | bound _ _ => exact absurd trivial plain

/-- What becomes a record fails with the object that is validated. -/
theorem Parsing.opens_of_failed {limit : Nat} {path : String} {sample value : Value}
    {before : Trace}
    (failed : (parseObject (parseTo world config limit) world config path sample value).Yields before
      (.error fail) after) :
    ∃ call, Parsing.Opens world ⟨limit + 1, .record, path, sample, value, before⟩ call ∧
      (call.run world config).Yields call.before (.error fail) after := by
  by_cases record : ∃ recordClass fields, world.heap.look sample = .record recordClass fields
  · obtain ⟨recordClass, fields, shape⟩ := record
    rw [parseObject_of_record shape] at failed
    exact ⟨_, .intro shape, failed⟩
  · rw [parseObject_of_no_record fun recordClass fields shape =>
      record ⟨recordClass, fields, shape⟩] at failed
    split at failed <;> simp at failed

/-- Parsing fails with the value itself or with an element that it hinges on: there of itself, or
with the object that is validated there. -/
theorem Parsing.exists_hinge
    (failed : (parsing.run world config).Yields parsing.before (.error fail) after) :
    ∃ last, Parsing.Hinges world config parsing last ∧
      (Parsing.Fails world config last fail after ∨
        ∃ call, last.Opens world call ∧
          (call.run world config).Yields call.before (.error fail) after) := by
  obtain ⟨limit, type, path, sample, value, before⟩ := parsing
  induction limit generalizing type path sample value before with
  | zero =>
      by_cases nests : Nests type
      · cases type <;> first | exact nests.elim | simp [Parsing.run, parseTo] at failed
      · exact ⟨_, .itself, .inl (fails_of_plain nests failed)⟩
  | succ limit ih =>
      have collected {collection : Collection} {element : Option ValueType}
          (gathers : OfCollection type collection element) :
          ∃ last, Parsing.Hinges world config ⟨limit + 1, type, path, sample, value, before⟩ last ∧
            (Parsing.Fails world config last fail after ∨
              ∃ call, last.Opens world call ∧
                (call.run world config).Yields call.before (.error fail) after) := by
        rw [Parsing.run, gathers.parseTo_eq, parseCollection_fails] at failed
        obtain ⟨_, _, _, _, _, _, _, comes, failed⟩ := failed
        rcases parseItem_fails_iff.mp failed with ⟨_, refused, rfl⟩ | ⟨_, fit, failed, strict⟩
        · exact ⟨_, .itself, .inl (.misfit gathers comes refused)⟩
        · obtain ⟨last, hinges, fails⟩ := ih _ _ _ _ _ failed
          exact ⟨last, .element gathers comes fit strict hinges, fails⟩
      cases type with
      | primitive _ | bigInteger | custom _ =>
          exact ⟨_, .itself, .inl (fails_of_plain id failed)⟩
      | record => exact ⟨_, .itself, .inr (opens_of_failed failed)⟩
      | unbound collection => exact collected .unbound
      | bound collection element => exact collected .bound

theorem Parsing.fails_iff :
    (parsing.run world config).Yields parsing.before (.error fail) after ↔
      ∃ last, Parsing.Hinges world config parsing last ∧
        (Parsing.Fails world config last fail after ∨
          ∃ call, last.Opens world call ∧
            (call.run world config).Yields call.before (.error fail) after) := by
  refine ⟨exists_hinge, ?_⟩
  rintro ⟨last, hinges, fails | ⟨call, opens, failed⟩⟩
  · exact hinges.run fails.run
  · obtain ⟨same, start⟩ := opens.run_eq
    exact hinges.run (by rwa [same, start])

/-- Under a lenient configuration a value hinges on itself alone. -/
theorem Parsing.Hinges.eq_of_lenient (hinges : Parsing.Hinges world config parsing last)
    (lenient : config.lenient = true) : last = parsing := by
  cases hinges with
  | itself => rfl
  | element _ _ _ strict _ => cases strict.symm.trans lenient

theorem Parsing.Hinges.enters (hinges : Parsing.Hinges world config parsing last)
    (opens : last.Opens world call) :
    Enters world config parsing.limit parsing.type parsing.path parsing.sample parsing.value
      parsing.before call := by
  induction hinges with
  | itself =>
      cases opens with
      | intro shape => exact .object shape
  | element gathers comes compared _ _ ih => exact .inside gathers comes compared (ih opens)

theorem Visit.Relays.carries (relays : visit.Relays world config call) :
    Carries config visit.field := by
  cases relays with
  | intro _ held hinges opens =>
      intro lenient
      obtain rfl := hinges.eq_of_lenient lenient
      have record : visit.field.type = .record := by
        generalize parsing : visit.parsed _ _ = last at opens
        cases opens with
        | intro _ => exact congrArg Parsing.type parsing
      exact ⟨record, fun optional => held ⟨lenient, optional, by rw [record]; rfl⟩⟩

/-- A field fails of itself, or with an object that it holds. -/
theorem Visit.fails_iff :
    (visit.guarded world config).Yields visit.before (.failed fail) after ↔
      visit.Makes world config fail after ∨
        ∃ call, visit.Relays world config call ∧
          (call.run world config).Yields call.before (.error fail) after := by
  constructor
  · intro failed
    rcases guardField_yields_iff.mp failed with settled | ⟨_, _, _, broke, told, made, rfl⟩
    · cases settles_of_settleField settled with
      | unsought sought => exact .inl (.missing sought)
      | refused sought compared => exact .inl (.refused sought compared)
      | rejected sought compared fits decided => exact .inl (.rejected sought compared fits decided)
      | @failed value middle _ _ admitted parsed held =>
          have failed : ((visit.parsed value middle).run world config).Yields middle (.error fail)
              after := parsed
          obtain ⟨last, hinges, fails | ⟨call, opens, failed⟩⟩ := Parsing.fails_iff.mp failed
          · exact .inl (.unparsed admitted held hinges fails)
          · exact .inr ⟨call, .intro admitted held hinges opens, failed⟩
    · cases made
      exact .inl (.broken broke told)
  · rintro (makes | ⟨call, relays, failed⟩)
    · cases makes with
      | missing sought =>
          exact guardField_of_settleField ((inputOf_of_sought sought).bind.trans rfl)
      | refused sought compared => exact Visit.guarded_of_refused sought compared
      | rejected sought compared fits decided =>
          exact Visit.guarded_of_failure sought compared fits decided
      | unparsed admitted held hinges fails =>
          exact guardField_of_settleField
            ((passesFailuresOn world config).failedField admitted (hinges.run fails.run) held)
      | broken broke told => exact guardField_yields_iff.mpr (.inr ⟨_, _, _, broke, told, rfl, rfl⟩)
    · cases relays with
      | @intro value middle last _ admitted held hinges opens =>
          have parsed : ((visit.parsed value middle).run world config).Yields middle (.error fail)
              after := Parsing.fails_iff.mpr ⟨last, hinges, .inr ⟨call, opens, failed⟩⟩
          exact guardField_of_settleField
            ((passesFailuresOn world config).failedField admitted parsed held)

/-- The value fits its type, and has to be parsed. -/
def Parsing.Fits (world : World) (parsing : Parsing) : Prop :=
  ∃ first last, (parsing.type.fit world.heap parsing.value parsing.sample).Yields first .toParse
    last

theorem Parsing.Hinges.fits (hinges : Parsing.Hinges world config parsing last)
    (fits : parsing.Fits world) : last.Fits world := by
  induction hinges with
  | itself => exact fits
  | element _ _ compared _ _ ih => exact ih ⟨_, _, compared⟩

theorem Parsing.Hinges.limit_le (hinges : Parsing.Hinges world config parsing last) :
    last.limit ≤ parsing.limit := by
  induction hinges with
  | itself => exact Nat.le_refl _
  | element _ _ _ _ _ ih => exact Nat.le_succ_of_le ih

theorem Visit.Relays.limit_lt (relays : visit.Relays world config call) :
    call.limit < visit.limit := by
  cases relays with
  | intro _ _ hinges opens =>
      have bound : _ ≤ visit.limit := hinges.limit_le
      cases opens with
      | intro _ => exact bound

/-- Data of the wrong shape does not come as far as to be validated inside of a field, because it
does not fit. -/
theorem Visit.Relays.not_refused (relays : visit.Relays world config call) :
    ¬ call.Refused world fail after := by
  rintro ⟨_, noMapping, _⟩
  cases relays with
  | @intro value middle _ _ admitted _ hinges opens =>
      have fits : (visit.parsed value middle).Fits world := by
        cases admitted with
        | intro _ compared _ => exact ⟨_, _, compared⟩
      obtain ⟨_, _, compared⟩ := hinges.fits fits
      cases opens with
      | intro _ =>
          obtain ⟨entries, mapping⟩ := mapping_of_record_toParse compared
          exact noMapping entries mapping

theorem Call.Refused.run (refused : call.Refused world fail after) :
    (call.run world config).Yields call.before (.error fail) after := by
  cases refused with
  | intro known noMapping noRecord =>
      have demanded : (liftM call.schema.demandCompiled : Run Compiled).Yields call.before _
          call.before := Run.yields_of_ok (demandCompiled_ok.mpr known)
      cases shape : world.heap.look call.data <;>
        simp only [Call.run, validateTo, validateWith, Heap.shapeName, shape]
      case mapping entries => exact absurd shape (noMapping entries)
      case record recordClass fields =>
        rw [noRecord recordClass fields shape, if_neg Bool.false_ne_true]
        exact demanded.bind.trans rfl
      all_goals exact demanded.bind.trans rfl

/-- An object fails by its shape or with one of its fields. -/
theorem Call.fails_at (failed : (call.run world config).Yields call.before (.error fail) after) :
    call.Refused world fail after ∨ ∃ visit, call.Reaches world config visit ∧
      visit.limit = call.limit ∧
        (visit.guarded world config).Yields visit.before (.failed fail) after := by
  cases validates_of_validateWith failed with
  | refused known noMapping noRecord => exact .inl (.intro known noMapping noRecord)
  | @failed compiled entries _ _ known mapping _ =>
      simp only [Call.run, validateTo, validateWith, mapping, Run.yields_bind, Run.yields_lift,
        demandCompiled_ok] at failed
      obtain ⟨_, _, ⟨same, rfl⟩, result, middle, settled, failed⟩ := failed
      cases known.symm.trans same
      cases result with
      | ok fields => simp at failed
      | error own =>
          obtain ⟨same, rfl⟩ := Run.yields_pure.mp failed
          cases same
          obtain ⟨done, field, rest, filled, reached, order, settled, guarded⟩ :=
            settleFields_fails_iff.mp settled
          exact .inr ⟨_, .intro known mapping order settled, rfl, guarded⟩

/-- What an object fails with, unless it has the wrong shape, is made by a field that is reached
through fields and collections which the policy leaves nothing out of. -/
theorem Call.fails_iff :
    (call.run world config).Yields call.before (.error fail) after ↔
      call.Refused world fail after ∨ ∃ visit, Visits world config (Carries config) call visit ∧
        visit.Makes world config fail after := by
  constructor
  · intro failed
    obtain ⟨limit, bound⟩ : ∃ limit, call.limit = limit := ⟨_, rfl⟩
    induction limit using Nat.strongRecOn generalizing call with
    | ind limit ih =>
        rcases Call.fails_at failed with refused | ⟨visit, reaches, depth, failed⟩
        · exact .inl refused
        · rcases Visit.fails_iff.mp failed with makes | ⟨inner, relays, failed⟩
          · exact .inr ⟨visit, .own reaches, makes⟩
          · have less := relays.limit_lt
            rcases ih inner.limit (by omega) failed rfl with refused | ⟨deeper, visits, makes⟩
            · exact absurd refused relays.not_refused
            · refine .inr ⟨deeper, ?_, makes⟩
              have carries := relays.carries
              cases relays with
              | intro admitted _ hinges opens =>
                  exact .inside reaches admitted (hinges.enters opens) carries visits
  · rintro (refused | ⟨visit, visits, makes⟩)
    · exact refused.run
    · exact visits.carries (Visit.fails_iff.mpr (.inl makes))

end Failing

end Validation

end Exemplar
