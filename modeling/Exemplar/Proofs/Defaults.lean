import Exemplar.Proofs.Determinacy
import Exemplar.Proofs.Locality
import Exemplar.Proofs.Requirements

/-!
Defaults that stand the same wherever they stand. What becomes of a field with a default where there
is no input for it, and no fallback, depends on the sample, the bounds and the allowed values of the
field, and on nothing else: neither on the configuration, nor on the rest of the input, nor on what
other objects there are.
-/

namespace Exemplar

/-- A computation that comes to one value and leaves every trace as it is. -/
theorem Run.eq_pure {α : Type} {action : Run α} {value : α}
    (yields : ∀ before, action.Yields before value before) : action = pure value := by
  apply ExceptT.ext
  funext before
  exact yields before

/-- The other heap holds the same of the value, which does not go round in circles. -/
structure Heap.Retains (one other : Heap) (value : Value) : Prop where
  agrees : one.Agrees other value
  finite : one.Finite value

/-- A check of the application that goes by the value that it is given: where two heaps hold the same
of it, it answers the same in both, each time, and with nothing of which they hold different
things. -/
structure CustomCheck.GoesByValue (hook : CustomCheck) : Prop where
  agrees {one other : Heap} {value : Value} : one.Retains other value →
    hook.check other value = hook.check one value
  determined : ∀ heap value, (hook.check heap value).Determined
  answers {one other : Heap} {value answer : Value} {before after : Trace} :
    one.Retains other value → (hook.check one value).Yields before (.other answer) after →
    one.Agrees other answer

/-- The values that a value of the field is compared with. -/
def Declaration.compared (declaration : Declaration) : List Value :=
  declaration.minimum.toList ++ declaration.maximum.toList ++ declaration.allowed.getD []

/-- The values that decide what becomes of the field where it has no input. -/
def Field.values (field : Field) : List Value := field.sample :: field.declaration.compared

section Declarations

variable {declaration : Declaration} {value : Value}

theorem Declaration.mem_compared_of_bound {side : Side}
    (declared : declaration.bound side = some value) : value ∈ declaration.compared := by
  cases side <;> simp_all [Declaration.bound, Declaration.compared]

theorem Declaration.mem_compared_of_allowed {choices : List Value}
    (declared : declaration.allowed = some choices) (member : value ∈ choices) :
    value ∈ declaration.compared := by
  simp [Declaration.compared, declared, member]

end Declarations

section Retained

variable {one other : Heap} {value sample : Value} {type : ValueType}

namespace Heap

theorem retains_of_bare (here : one.look value = value) (bare : value.address? = none)
    (parts : value.parts = []) : one.Retains other value where
  agrees := agrees_of_parts here bare fun part member => by rw [parts] at member; cases member
  finite := ⟨1, within_of_no_parts (here.symm ▸ parts)⟩

theorem Retains.copied (retains : one.Retains other value) : one.Retains other value.copied where
  agrees := retains.agrees.copied
  finite := by
    obtain ⟨levels, within⟩ := retains.finite
    exact ⟨levels, within_copied.mpr within⟩

/-- A set that is retained is retained as the frozen set that it takes its hash from. -/
theorem Retains.frozen {elements : List Value} (retains : one.Retains other value)
    (shape : one.look value = .set elements) : one.Retains other (.frozenSet elements) where
  agrees := agrees_of_parts rfl rfl fun part member =>
    retains.agrees.inside (by rw [shape]; exact member)
  finite := by
    obtain ⟨levels, within⟩ := retains.finite
    obtain ⟨below, rfl⟩ := within.succ
    exact ⟨below + 1, fun part member => within part (by rw [shape]; exact member)⟩

theorem StandsIn.retained (stands : one.StandsIn sample value) (retains : one.Retains other sample) :
    one.Retains other value := by
  cases stands with
  | itself => exact retains
  | copied => exact retains.copied
  | @empty kind _ _ => exact retains_of_bare (by simp) (by cases kind <;> rfl) (by simp)

end Heap

theorem Measure.length_retained (retains : one.Retains other value) :
    Measure.length other value = Measure.length one value := by
  simp only [Measure.length, Heap.length?, Heap.qualifiedName, retains.agrees.look]

namespace Choices

variable {members : List (Nat × Value)} {hash : Nat} {choices : List Value}

theorem findHashed_retained (retains : one.Retains other value)
    (each : ∀ member ∈ members, one.Retains other member.2) :
    findHashed other members hash value = findHashed one members hash value := by
  induction members with
  | nil => rfl
  | cons member rest ih =>
      obtain ⟨here, others⟩ := List.forall_mem_cons.mp each
      have later := ih others
      simp only [findHashed] at later
      simp only [findHashed, List.any_cons, later,
        retains.agrees.equal here.agrees retains.finite here.finite]

/-- Whether the value is one of the choices is the same in both heaps. -/
theorem holds_retained (retains : one.Retains other value)
    (each : ∀ member ∈ choices, one.Retains other member) :
    (ofList one choices).holds other value = (ofList one choices).holds one value := by
  have among {members : List Value} (within : ∀ member ∈ members, one.Retains other member) :
      other.isAmong value members = one.isAmong value members :=
    retains.agrees.isAmong retains.finite fun member known =>
      ⟨(within member known).agrees, (within member known).finite⟩
  unfold ofList
  split
  next hashes _ =>
    have inside : ∀ member ∈ hashes.zip choices, one.Retains other member.2 :=
      fun member known => each _ (List.of_mem_zip known).2
    have listed : ∀ member ∈ (hashes.zip choices).map (·.2), one.Retains other member :=
      List.forall_mem_map.mpr inside
    simp only [holds, findHashed_retained retains inside, among listed,
      retains.agrees.hash? retains.finite, retains.agrees.look]
    split
    next => rfl
    next =>
      split
      next elements shape =>
        have frozen := retains.frozen shape
        rw [frozen.agrees.hash? frozen.finite]
      next => rfl
  next => exact among each

end Choices

/-- A check that a declaration asks for comes to the same in both heaps, with all that it compares
the value with. -/
theorem Check.apply_retained {check : Check} {name : String} {declaration : Declaration}
    {measure : Measure} (asked : Asked one sample declaration measure check)
    (size : measure.size other value = measure.size one value)
    (compared : measure.compared = fun _ value => return value)
    (each : ∀ member ∈ declaration.compared, one.Retains other member)
    (own : ∀ hook, declaration.custom = some hook → hook.GoesByValue)
    (retains : one.Retains other value) :
    check.apply name other value = check.apply name one value := by
  have shown {inner : Value} (retained : one.Retains other inner) :
      other.display inner = one.display inner :=
    retained.agrees.display retained.finite
  have ordered (side : Side) {left right : Value} (first : one.Retains other left)
      (second : one.Retains other right) : other.order side left right = one.order side left right :=
    first.agrees.order second.agrees first.finite second.finite side
  cases asked with
  | bySize declared _ =>
      have limited := each _ (Declaration.mem_compared_of_bound declared)
      have counted (count : Nat) : one.Retains other (.int count) := Heap.retains_of_bare rfl rfl rfl
      simp only [apply, size, ordered _ (counted _) limited, shown limited]
  | byValue declared _ =>
      have limited := each _ (Declaration.mem_compared_of_bound declared)
      simp only [apply, compared, pure_bind, shown limited]
      split
      next => rfl
      next => rw [ordered _ retains limited, shown retains]
  | allowed declared _ =>
      have chosen := Choices.holds_retained retains fun member known =>
        each member (Declaration.mem_compared_of_allowed declared known)
      simp only [apply, chosen, shown retains]
  | matching _ _ => simp only [apply, shown retains]
  | noRegex _ _ _ => rfl
  | integer _ _ _ =>
      have safe : other.holdsSafeInteger value = one.holdsSafeInteger value := by
        rw [Heap.holdsSafeInteger, Heap.holdsSafeInteger, retains.agrees.look]
      simp only [apply, safe, shown retains]
  | custom declared => exact (own _ declared).agrees retains

namespace Heap

theorem gathering_agrees (agrees : one.Agrees other sample) :
    other.gathering? sample = one.gathering? sample := by
  rw [gathering?, gathering?, agrees.look]

/-- A sample has the same type wherever the same is held of it. -/
theorem Typed.agrees (typed : one.Typed sample type) (agrees : one.Agrees other sample) :
    other.Typed sample type := by
  induction typed with
  | unchecked shape => exact .unchecked ((gathering_agrees agrees).trans shape)
  | elements shape _ ih =>
      refine .elements ((gathering_agrees agrees).trans shape) (ih (agrees.inside ?_))
      rw [parts_of_gathering shape]
      exact List.mem_cons_self
  | record shape => exact .record (agrees.look.trans shape)
  | plain bare single =>
      refine .plain ((gathering_agrees agrees).trans bare) ?_
      rw [isRecord, agrees.look]
      exact single

/-- The same stands in for it. -/
theorem Typed.standIn_retained (typed : one.Typed sample type) (retains : one.Retains other sample) :
    type.standIn other sample = type.standIn one sample := by
  cases typed with
  | unchecked _ | elements _ _ | record _ => rfl
  | plain _ _ =>
      have copied : other.deepCopy sample = one.deepCopy sample := by
        rw [deepCopy, deepCopy, retains.agrees.holdsFailure retains.finite]
      simp only [ValueType.standIn, Primitive.standIn, retains.agrees.look, copied]

theorem Typed.size_retained (typed : one.Typed sample type) (stands : one.StandsIn sample value)
    (retains : one.Retains other value) :
    type.measure.size other value = type.measure.size one value := by
  cases typed with
  | unchecked shape | elements shape _ =>
      cases stands with
      | itself bare => cases bare.symm.trans shape
      | copied shareable => cases shareable.bare.symm.trans shape
      | @empty kind _ same =>
          have counted (heap : Heap) : kind.collection.size heap (kind.wrap []) = pure 0 := by
            cases kind <;> rfl
          cases shape.symm.trans same
          exact (counted other).trans (counted one).symm
  | record _ | plain _ _ => exact Measure.length_retained retains

end Heap

/-- Only a check of the application answers with something that is no failure. -/
theorem Check.custom_of_other {check : Check} {name : String} {answer : Value}
    {before after : Trace}
    (answered : (check.apply name one value).Yields before (.other answer) after) :
    ∃ hook, check = .custom hook ∧ (hook.check one value).Yields before (.other answer) after := by
  cases check with
  | custom hook => exact ⟨hook, rfl, answered⟩
  | noRegex _ => simp [apply] at answered
  | bySize _ _ _ _ =>
      simp only [apply, Run.yields_bind] at answered
      obtain ⟨_, _, _, _, _, _, answered⟩ := answered
      split at answered <;> simp at answered
  | byValue _ _ _ =>
      simp only [apply, Run.yields_bind] at answered
      obtain ⟨_, _, _, answered⟩ := answered
      split at answered
      next => simp at answered
      next =>
        simp only [Run.yields_bind] at answered
        obtain ⟨_, _, _, answered⟩ := answered
        split at answered <;> simp at answered
  | matching _ =>
      simp only [apply, Run.yields_bind] at answered
      obtain ⟨_, _, _, answered⟩ := answered
      split at answered <;> simp at answered
  | allowed _ _ | integer =>
      simp only [apply] at answered
      split at answered <;> simp at answered

end Retained

/-- A container that can change. -/
def Value.changeable : Value → Bool
  | .list _ | .set _ | .deque _ | .mapping _ | .record .. => true
  | _ => false

/-- What stands in for a sample that is no record is an empty collection, or a copy, or the sample
itself, and then the sample is no collection and cannot change. -/
theorem Heap.Typed.stands {heap : Heap} {sample value : Value} {type : ValueType}
    {before after : Trace} (typed : heap.Typed sample type) (single : heap.isRecord sample = false)
    (stood : (type.standIn heap sample).Yields before value after) :
    (∃ kind : Gathering, value = kind.wrap []) ∨ value = sample.copied ∨
      value = sample ∧ (heap.look sample).changeable = false ∧ heap.gathering? sample = none := by
  cases typed with
  | unchecked _ | elements _ _ => exact .inl ⟨_, (Gathering.empty_yields.mp stood).1⟩
  | record shape => simp [isRecord, shape] at single
  | plain bare _ =>
      have made := (Run.yields_lift.mp stood).1
      unfold Primitive.standIn at made
      split at made
      case h_1 | h_2 | h_3 | h_4 => exact .inr (.inl (deepCopy_ok made))
      next mappings lists queues sets =>
        refine .inr (.inr ⟨(Except.ok.inj made).symm, ?_, bare⟩)
        cases shape : heap.look sample with
        | record => simp [isRecord, shape] at single
        | mapping entries => exact absurd shape (mappings entries)
        | list elements => exact absurd shape (lists elements)
        | deque elements => exact absurd shape (queues elements)
        | set elements => exact absurd shape (sets elements)
        | _ => rfl

/-- What becomes of a field that has a default, where it has no input and no fallback: what stands in
for the sample is stored if it passes the checks. -/
def Field.supply (heap : Heap) (field : Field) (path : String) : Run FieldOutcome := do
  let value ← field.type.standIn heap field.sample
  match ← Field.locate heap path (← field.firstFailure heap value) with
  | some fail => return .failed fail
  | none => return .stored value

/-- What a run makes of the field: what supplying it comes to, or the failure that tells what broke
it. -/
inductive Field.Becomes (heap : Heap) (field : Field) (path : String) : FieldOutcome → Prop
  | settled {before outcome after} : (field.supply heap path).Yields before outcome after →
      Becomes heap field path outcome
  | broken {before fault after} : (field.supply heap path).Breaks before fault after →
      Becomes heap field path (.failed (.unknown path fault.summary))

section Becoming

open Validation

variable {heap : Heap} {field : Field} {path key : String} {outcome : FieldOutcome} {value : Value}

theorem Field.exists_becomes (heap : Heap) (field : Field) (path : String) :
    ∃ outcome, field.Becomes heap path outcome := by
  rcases (field.supply heap path).yields_or_breaks [] with ⟨_, _, ran⟩ | ⟨_, _, broke⟩
  · exact ⟨_, .settled ran⟩
  · exact ⟨_, .broken broke⟩

namespace Field.Becomes

theorem guardField {parse : Parse} {world : World} {config : Configuration}
    {entries : List (Value × Value)} {before middle : Trace}
    (becomes : field.Becomes heap path outcome) (determined : (field.supply heap path).Determined)
    (settles : (withoutInput world field path >>= settleInput parse world config field path) =
      field.supply heap path)
    (named : (config.keys.keyOf field.name).Yields before key middle)
    (absent : entryUnder key entries = .null) :
    ∃ after, (Validation.guardField parse world config field path entries).Yields before outcome
      after := by
  obtain ⟨result, events, ran⟩ := determined
  have whole : (settleField parse world config field path entries).run.run before =
      (result, middle ++ events) := by
    rw [settleField_eq_keyOf, named.bind, absent, fromEntry_null, settles]
    exact ran middle
  cases becomes with
  | settled supplied =>
      cases supplied.symm.trans (ran _)
      exact ⟨_, guardField_yields.mpr (.inl whole)⟩
  | broken broke =>
      cases broke.symm.trans (ran _)
      exact ⟨_, guardField_yields.mpr (.inr ⟨_, _, whole, rfl, rfl⟩)⟩

/-- What is stored stands in for the sample. -/
theorem stood (becomes : field.Becomes heap path (.stored value)) :
    ∃ before after, (field.type.standIn heap field.sample).Yields before value after := by
  cases becomes with
  | settled ran =>
      simp only [Field.supply, Run.yields_bind] at ran
      obtain ⟨standing, middle, stood, _, _, _, found, _, _, ran⟩ := ran
      cases found with
      | some fail => cases (Run.yields_pure.mp ran).1
      | none =>
          cases (Run.yields_pure.mp ran).1
          exact ⟨_, _, stood⟩

theorem not_omitted : ¬ field.Becomes heap path .omitted := by
  intro becomes
  cases becomes with
  | settled ran =>
      simp only [Field.supply, Run.yields_bind] at ran
      obtain ⟨_, _, _, _, _, _, found, _, _, ran⟩ := ran
      cases found <;> cases (Run.yields_pure.mp ran).1

end Field.Becomes

end Becoming

/-- A field with a default that is no record, and without a fallback. What decides what becomes of it
does not go round in circles. -/
structure Field.Defaulted (heap : Heap) (field : Field) : Prop where
  compiled : field.CompiledBy Catalogue.builtIn heap
  mode : field.declaration.mode = .defaulted
  final : field.declaration.fallback = none
  stored : field.sample.Stored
  single : heap.isRecord field.sample = false
  finite : ∀ value ∈ field.values, heap.Finite value
  own : ∀ hook, field.declaration.custom = some hook → hook.GoesByValue

namespace Field.Defaulted

variable {heap other : Heap} {field : Field} {path : String} {value : Value}
  {outcome : FieldOutcome} {before after : Trace}

theorem whole (defaulted : field.Defaulted heap) (index : Nat) : field.sample ≠ .copy index := by
  intro same
  have stored := defaulted.stored
  rw [same] at stored
  exact stored

theorem obeys (defaulted : field.Defaulted heap) : field.Obeys Run.determinacy := by
  obtain ⟨_, _, typed⟩ := defaulted.compiled.typeFor
  obtain ⟨_, member, binds⟩ := Catalogue.binds_of_typeFor typed
  have type : field.type.Obeys Run.determinacy :=
    binds.obeys (fun _ => Catalogue.obeys_builtIn) (Catalogue.obeys_builtIn member)
  refine ⟨type, fun check known => ?_⟩
  cases Check.asked_of_compile defaulted.compiled.checked known with
  | bySize _ _ => exact .bySize type.measure.size
  | byValue _ _ => exact .byValue type.measure.compared
  | allowed _ _ => exact .allowed
  | matching _ _ => exact .matching
  | noRegex _ _ _ => exact .noRegex
  | integer _ _ _ => exact .integer
  | custom declared => exact .custom (defaulted.own _ declared).determined

theorem determined (defaulted : field.Defaulted heap) (other : Heap) :
    (field.supply other path).Determined := by
  refine Run.determinacy.bind defaulted.obeys.type.standIn fun _ =>
    Run.determinacy.bind defaulted.obeys.firstFailure fun _ =>
      Run.determinacy.bind Field.obeys_locate fun {_ found _} _ => ?_
  cases found <;> exact Run.determinacy.pure

theorem firstFailure_retained (defaulted : field.Defaulted heap)
    (retained : ∀ value ∈ field.values, heap.Retains other value)
    (stands : heap.StandsIn field.sample value) :
    field.firstFailure other value = field.firstFailure heap value := by
  obtain ⟨sample, compared⟩ := List.forall_mem_cons.mp retained
  have retains := stands.retained sample
  have typed := defaulted.compiled.typed
  have each : ∀ check ∈ field.checks,
      check.apply field.name other value = check.apply field.name heap value :=
    fun check member => Check.apply_retained (Check.asked_of_compile defaulted.compiled.checked member)
      (typed.size_retained stands retains) typed.compared compared defaulted.own retains
  unfold Field.firstFailure
  generalize field.checks = checks at each
  induction checks with
  | nil => rfl
  | cons check rest ih =>
      obtain ⟨first, others⟩ := List.forall_mem_cons.mp each
      simp only [Field.firstFailureOf, first, ih others]

/-- An answer is located alike, because only a check of the application answers with a value. -/
theorem locate_retained (defaulted : field.Defaulted heap) (retains : heap.Retains other value)
    {verdict : Verdict} (judged : (field.firstFailure heap value).Yields before verdict after) :
    Field.locate other path verdict = Field.locate heap path verdict := by
  cases verdict with
  | pass | failure _ => rfl
  | other answer =>
      obtain ⟨check, member, _, _, applied⟩ := Field.answer_of_firstFailureOf judged nofun
      obtain ⟨hook, rfl, answered⟩ := Check.custom_of_other applied
      have declared := Check.custom_of_compile defaulted.compiled.checked member
      have agrees := (defaulted.own hook declared).answers retains answered
      simp only [Field.locate, Heap.qualifiedName, agrees.look]

/-- Where the same is held of what decides it, the same becomes of the field. -/
theorem supply_retained (defaulted : field.Defaulted heap)
    (retained : ∀ value ∈ field.values, heap.Retains other value) :
    field.supply other path = field.supply heap path := by
  have sample := (List.forall_mem_cons.mp retained).1
  have typed := defaulted.compiled.typed
  simp only [Field.supply, typed.standIn_retained sample]
  refine Run.bind_congr_yields fun {_ value _} stood => ?_
  have stands := typed.standsIn stood
  rw [defaulted.firstFailure_retained retained stands]
  refine Run.bind_congr_yields fun judged => ?_
  rw [defaulted.locate_retained (stands.retained sample) judged]

section Runs

open Validation

variable {world : World} {config : Configuration} {limit : Nat}

/-- Without input for it the field is supplied, whatever else there is. -/
theorem settle_supply (defaulted : field.Defaulted heap)
    (typed : world.heap.Typed field.sample field.type)
    (single : world.heap.isRecord field.sample = false) :
    (withoutInput world field path >>=
      settleInput (parseTo world config (limit + 1)) world config field path) =
        field.supply world.heap path := by
  simp only [withoutInput, defaulted.mode, bind_assoc, pure_bind]
  refine Run.bind_congr_yields fun {_ value _} stood => ?_
  obtain ⟨fits, parses⟩ := takes_standIn typed single defaulted.whole (typed.standsIn stood)
  have kept : substitute world.heap field.declaration value = value :=
    (substitute_cases world.heap field.declaration value).resolve_right (by simp [defaulted.final])
  have parsed : parseField (parseTo world config (limit + 1)) config field path value =
      pure (.stored value) := by
    rw [parseField, Run.eq_pure (parses config limit path), pure_bind]
  simp only [settleInput, kept, settleValue, fits, pure_bind]
  refine Run.bind_congr_yields fun _ => Run.bind_congr_yields fun {_ found _} _ => ?_
  cases found with
  | some fail => rfl
  | none => exact parsed

/-- Every run that has no input for the field comes to the one outcome that is fixed for it. -/
theorem guarded {schema : Schema} {call : Call} {visit : Visit} (defaulted : field.Defaulted heap)
    (agrees : ∀ value ∈ field.values, heap.Agrees world.heap value)
    (misses : Misses world config schema field call visit)
    (becomes : field.Becomes heap visit.path outcome) :
    ∃ after, (visit.guarded world config).Yields visit.before outcome after := by
  have retained : ∀ value ∈ field.values, heap.Retains world.heap value :=
    fun value member => ⟨agrees value member, defaulted.finite value member⟩
  have sample := (List.forall_mem_cons.mp retained).1
  have typed := defaulted.compiled.typed.agrees sample.agrees
  have single : world.heap.isRecord field.sample = false := by
    rw [Heap.isRecord, sample.agrees.look]
    exact defaulted.single
  obtain ⟨_, deep, reaches, rfl, key, middle, named, absent⟩ := misses
  obtain ⟨limit, visited⟩ : ∃ limit, visit.limit = limit + 1 := by
    cases reaches
    exact ⟨_, deep⟩
  rw [Visit.guarded, visited]
  refine becomes.guardField (defaulted.determined heap) ?_ named absent
  rw [defaulted.settle_supply typed single, defaulted.supply_retained retained]

end Runs

end Field.Defaulted

end Exemplar
