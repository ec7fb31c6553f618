import Exemplar.Proofs.Bounds
import Exemplar.Proofs.Containment
import Exemplar.Proofs.Determinacy
import Exemplar.Proofs.Orders

/-!
Asking for all failures of a value and validating it agree. Both go through the same checks, the one
to the end, the other up to the first that does not pass; so the failure of a run is the first of the
list, at the place of the field in the input, and a check that breaks down ends the list always and
the run where nothing failed before. The library's own failures come in one order, each at most once,
and before what the application's check has to say.
-/

namespace Exemplar

namespace Run

variable {α : Type} {action : Run α} {first last before : Trace} {value : α} {fault : Fault}

theorem Determined.yields (determined : action.Determined) (yielded : action.Yields first value last)
    (before : Trace) : ∃ after, action.Yields before value after := by
  obtain ⟨result, events, ran⟩ := determined
  have same : (result, first ++ events) = (.ok value, last) := (ran first).symm.trans yielded
  cases same
  exact ⟨before ++ events, ran before⟩

theorem Determined.breaks (determined : action.Determined) (broke : action.Breaks first fault last)
    (before : Trace) : ∃ after, action.Breaks before fault after := by
  obtain ⟨result, events, ran⟩ := determined
  have same : (result, first ++ events) = (.error fault, last) := (ran first).symm.trans broke
  cases same
  exact ⟨before ++ events, ran before⟩

theorem Determined.unique {other : α} {left right : Trace} (determined : action.Determined)
    (one : action.Yields first value last) (another : action.Yields left other right) :
    value = other := by
  obtain ⟨_, again⟩ := determined.yields one left
  exact (again.unique another).1

end Run

namespace Field

variable {name path : String} {heap : Heap} {value : Value} {check : Check}
  {checks done rest : List Check} {fail : Failure} {fails : List Failure} {fault : Fault}
  {before after : Trace}

/-- What one check adds to the list of failures. -/
def failureOf (name : String) (heap : Heap) (value : Value) (check : Check) :
    Run (Option Failure) := do
  locate heap name (← check.apply name heap value)

theorem failuresOf_cons :
    failuresOf name heap value (check :: rest) = (do
      let fail ← failureOf name heap value check
      let others ← failuresOf name heap value rest
      return fail.toList ++ others) := by
  simp only [failuresOf, failureOf, bind_assoc]

theorem failuresOf_append :
    failuresOf name heap value (done ++ rest) = (do
      let early ← failuresOf name heap value done
      let late ← failuresOf name heap value rest
      return early ++ late) := by
  induction done with
  | nil => simp [failuresOf]
  | cons check done ih =>
      simp only [List.cons_append, failuresOf_cons, ih, bind_assoc, pure_bind, List.append_assoc]

theorem failureOf_yields {answer : Option Failure} :
    (failureOf name heap value check).Yields before answer after ↔
      (check.apply name heap value).Yields before .pass after ∧ answer = none ∨
        ∃ fail, (check.apply name heap value).Yields before (.failure fail) after ∧
          answer = some (fail.movedTo name) := by
  simp only [failureOf, Run.yields_bind, Validation.locate_yields]
  constructor
  · rintro ⟨verdict, _, applied, rfl, ⟨rfl, rfl⟩ | ⟨fail, rfl, rfl⟩⟩
    · exact .inl ⟨applied, rfl⟩
    · exact .inr ⟨fail, applied, rfl⟩
  · rintro (⟨applied, rfl⟩ | ⟨fail, applied, rfl⟩)
    · exact ⟨_, _, applied, rfl, .inl ⟨rfl, rfl⟩⟩
    · exact ⟨_, _, applied, rfl, .inr ⟨fail, rfl, rfl⟩⟩

theorem obeys_failureOf {law : Run.Law} (obeys : check.Obeys law) :
    law.Holds (failureOf name heap value check) :=
  law.bind obeys.apply fun _ => obeys_locate

theorem obeys_failuresOf {law : Run.Law} (obey : ∀ check ∈ checks, check.Obeys law) :
    law.Holds (failuresOf name heap value checks) := by
  induction checks with
  | nil => exact law.pure
  | cons check rest ih =>
      rw [List.forall_mem_cons] at obey
      rw [failuresOf_cons]
      exact law.bind (obeys_failureOf obey.1) fun _ => law.bind (ih obey.2) fun _ => law.pure

/-- Where the list stays empty every check has passed. -/
theorem pass_of_no_failures (found : (failuresOf name heap value checks).Yields before [] after) :
    (firstFailureOf name heap value checks).Yields before .pass after := by
  induction checks generalizing before with
  | nil =>
      obtain ⟨_, rfl⟩ := Run.yields_pure.mp found
      rfl
  | cons check rest ih =>
      simp only [failuresOf_cons, Run.yields_bind, Run.yields_pure, failureOf_yields] at found
      obtain ⟨answer, middle, answered, others, _, found, none, rfl⟩ := found
      obtain ⟨absent, rfl⟩ := List.append_eq_nil_iff.mp none.symm
      rcases answered with ⟨passed, rfl⟩ | ⟨own, _, rfl⟩
      · exact passed.bind.trans (ih found)
      · cases absent

/-- The first failure of the list is the one that checking up to the first failure finds. -/
theorem failure_of_failures
    (found : (failuresOf name heap value checks).Yields before (fail :: fails) after) :
    ∃ own last, (firstFailureOf name heap value checks).Yields before (.failure own) last ∧
      fail = own.movedTo name := by
  induction checks generalizing before with
  | nil => cases (Run.yields_pure.mp found).1
  | cons check rest ih =>
      simp only [failuresOf_cons, Run.yields_bind, Run.yields_pure, failureOf_yields] at found
      obtain ⟨answer, middle, answered, others, _, found, same, rfl⟩ := found
      rcases answered with ⟨passed, rfl⟩ | ⟨own, failed, rfl⟩
      · obtain rfl : fail :: fails = others := same
        obtain ⟨own, last, failed, moved⟩ := ih found
        exact ⟨own, last, passed.bind.trans failed, moved⟩
      · cases same
        exact ⟨own, middle, failed.bind.trans rfl, rfl⟩

/-- The list breaks down at one of the checks, after the failures of those before it. -/
theorem breaks_of_failuresOf
    (broke : (failuresOf name heap value checks).Breaks before fault after) :
    ∃ done check rest early middle, checks = done ++ check :: rest ∧
      (failuresOf name heap value done).Yields before early middle ∧
      (failureOf name heap value check).Breaks middle fault after := by
  induction checks generalizing before with
  | nil => simp [failuresOf] at broke
  | cons check rest ih =>
      simp only [failuresOf_cons, Run.breaks_bind, Run.breaks_pure, and_false, exists_false,
        or_false] at broke
      rcases broke with broke | ⟨answer, middle, answered, broke⟩
      · exact ⟨[], check, rest, [], before, rfl, rfl, broke⟩
      · obtain ⟨done, other, others, early, late, rfl, found, broke⟩ := ih broke
        refine ⟨check :: done, other, others, answer.toList ++ early, late, rfl, ?_, broke⟩
        rw [failuresOf_cons]
        exact answered.bind.trans (found.bind.trans rfl)

/-- A failure of the first checks is found whatever checks there are after them. -/
theorem failure_of_append
    (failed : (firstFailureOf name heap value done).Yields before (.failure fail) after) :
    (firstFailureOf name heap value (done ++ rest)).Yields before (.failure fail) after := by
  rw [firstFailureOf_append]
  exact failed.bind.trans rfl

/-- A check that breaks down after others that have passed breaks down the search for a failure. -/
theorem locate_breaks_of_pass {middle : Trace}
    (passed : (firstFailureOf name heap value done).Yields before .pass middle)
    (broke : (failureOf name heap value check).Breaks middle fault after) :
    (firstFailureOf name heap value (done ++ check :: rest) >>= locate heap path).Breaks before
      fault after := by
  rw [firstFailureOf_append, bind_assoc]
  refine passed.bind.trans ?_
  simp only [failureOf, Run.breaks_bind, Validation.locate_breaks] at broke
  rw [firstFailureOf, bind_assoc]
  rcases broke with broke | ⟨verdict, _, applied, answer, rfl, rfl, rfl⟩
  · exact broke.bind
  · refine applied.bind.trans ?_
    rfl

/-- All checks find the same where a run has come to them, if the run is at the same point or the
checks find the same each time. -/
theorem failuresOf_from {fitted : Trace}
    (alike : before = fitted ∨ ∀ check ∈ checks, check.Obeys Run.determinacy)
    (found : (failuresOf name heap value checks).Yields before fails after) :
    ∃ last, (failuresOf name heap value checks).Yields fitted fails last := by
  rcases alike with rfl | steady
  · exact ⟨after, found⟩
  · exact Run.Determined.yields (obeys_failuresOf steady) found fitted

/-- They break down there, too, at the same check and after the same failures. -/
theorem breaks_from {fitted middle : Trace}
    (alike : before = fitted ∨ ∀ other ∈ done ++ check :: rest, other.Obeys Run.determinacy)
    (found : (failuresOf name heap value done).Yields before fails middle)
    (broke : (failureOf name heap value check).Breaks middle fault after) :
    ∃ reached last, (failuresOf name heap value done).Yields fitted fails reached ∧
      (failureOf name heap value check).Breaks reached fault last := by
  rcases alike with rfl | steady
  · exact ⟨middle, after, found, broke⟩
  · rw [List.forall_mem_append, List.forall_mem_cons] at steady
    obtain ⟨earlier, own, _⟩ := steady
    obtain ⟨reached, found⟩ := Run.Determined.yields (obeys_failuresOf earlier) found fitted
    obtain ⟨last, broke⟩ := Run.Determined.breaks (obeys_failureOf own) broke reached
    exact ⟨reached, last, found, broke⟩

/-- A failure of the list is the answer of one of the checks. -/
theorem failure_of_mem (found : (failuresOf name heap value checks).Yields before fails after)
    (member : fail ∈ fails) : ∃ check ∈ checks, ∃ own first last,
      (check.apply name heap value).Yields first (.failure own) last ∧ fail = own.movedTo name := by
  induction checks generalizing before fails with
  | nil =>
      obtain ⟨rfl, _⟩ := Run.yields_pure.mp found
      cases member
  | cons check rest ih =>
      simp only [failuresOf_cons, Run.yields_bind, Run.yields_pure, failureOf_yields] at found
      obtain ⟨answer, middle, answered, others, _, found, rfl, rfl⟩ := found
      rcases List.mem_append.mp member with here | later
      · rcases answered with ⟨_, rfl⟩ | ⟨own, failed, rfl⟩
        · cases here
        · exact ⟨check, by simp, own, before, middle, failed, by simpa using here⟩
      · obtain ⟨other, known, rest⟩ := ih found later
        exact ⟨other, List.mem_cons_of_mem check known, rest⟩

/-- Failures that the application has no part in have the codes of their checks, in their order. -/
theorem codes_of_failuresOf (own : ∀ check ∈ checks, ∀ hook, check ≠ .custom hook)
    (found : (failuresOf name heap value checks).Yields before fails after) :
    (fails.map Failure.code).Sublist (checks.filterMap Check.code?) := by
  induction checks generalizing before fails with
  | nil =>
      obtain ⟨rfl, _⟩ := Run.yields_pure.mp found
      exact .slnil
  | cons check rest ih =>
      rw [List.forall_mem_cons] at own
      simp only [failuresOf_cons, Run.yields_bind, Run.yields_pure, failureOf_yields] at found
      obtain ⟨answer, middle, answered, others, _, found, rfl, rfl⟩ := found
      have later := ih own.2 found
      rcases answered with ⟨_, rfl⟩ | ⟨fail, failed, rfl⟩
      · exact later.trans ((List.sublist_cons_self check rest).filterMap Check.code?)
      · rcases Check.code_of_failure failed with code | ⟨hook, same, _⟩
        · rw [List.filterMap_cons, code]
          exact later.cons_cons fail.code
        · exact absurd same (own.1 hook)

end Field

namespace Check

variable {heap : Heap} {sample : Value} {declaration : Declaration} {measure : Measure}
  {checks : List Check}

/-- The checks make failures with the code only, one at most, and the application has no part in
them. -/
def OfCode (code : String) (checks : List Check) : Prop :=
  (checks.filterMap code?).Sublist [code] ∧ ∀ check ∈ checks, ∀ hook, check ≠ .custom hook

theorem ofCode_nil {code : String} : OfCode code [] := by
  simp [OfCode]

theorem ofCode_singleton {code : String} {check : Check} (own : ∀ hook, check ≠ .custom hook)
    (makes : ∀ other ∈ check.code?, other = code) : OfCode code [check] := by
  refine ⟨?_, by simpa using own⟩
  cases made : check.code? with
  | none => simp [made]
  | some other => simp [made, makes other made]

theorem ofCode_boundChecks {side : Side} {bound : Option Value} :
    OfCode side.code (boundChecks heap sample measure side bound) := by
  unfold boundChecks
  split
  next => exact ofCode_nil
  next => split <;> exact ofCode_singleton (by simp) (by simp [code?])

theorem ofCode_allowedChecks {choices : Option (List Value)}
    (compiled : allowedChecks heap choices = .ok checks) : OfCode "ALLOWED" checks := by
  cases choices with
  | none =>
      cases compiled
      exact ofCode_nil
  | some members =>
      obtain ⟨_, _, rfl⟩ := allowedChecks_some.mp compiled
      exact ofCode_singleton (by simp) (by simp [code?])

theorem ofCode_regexChecks {expression : Option Value}
    (compiled : regexChecks heap expression = .ok checks) : OfCode "REGEX" checks := by
  cases expression with
  | none =>
      cases compiled
      exact ofCode_nil
  | some written =>
      rcases regexChecks_some compiled with ⟨_, rfl, _⟩ | ⟨rfl, _, _⟩ <;>
        exact ofCode_singleton (by simp) (by simp [code?])

theorem ofCode_integerChecks {integer : Option Value} :
    OfCode "INTEGER" (integerChecks heap sample integer) := by
  unfold integerChecks
  split
  case h_1 | h_2 | h_3 =>
    split
    next => exact ofCode_singleton (by simp) (by simp [code?])
    next => exact ofCode_nil
  case h_4 => exact ofCode_nil

/-- At most one check of each kind is made, in the order of the codes, and the application's check
comes last. -/
theorem codes_of_compile (compiled : Check.compile heap sample declaration measure = .ok checks) :
    ∃ own, checks = own ++ customChecks declaration.custom ∧
      (own.filterMap code?).Sublist codes ∧ ∀ check ∈ own, ∀ hook, check ≠ .custom hook := by
  obtain ⟨allowed, regex, listed, expression, order⟩ := compile_eq compiled
  refine ⟨_, order, ?_, ?_⟩
  · simp only [List.filterMap_append]
    exact (((ofCode_boundChecks.1.append ofCode_boundChecks.1).append
      (ofCode_allowedChecks listed).1).append (ofCode_regexChecks expression).1).append
        ofCode_integerChecks.1
  · simp only [List.forall_mem_append]
    exact ⟨⟨⟨⟨ofCode_boundChecks.2, ofCode_boundChecks.2⟩, (ofCode_allowedChecks listed).2⟩,
      (ofCode_regexChecks expression).2⟩, ofCode_integerChecks.2⟩

end Check

theorem Side.code_injective {one other : Side} (same : one.code = other.code) : one = other := by
  cases one <;> cases other <;> simp_all [Side.code]

namespace Field

/-- What stands for a value where the bounds of the field are checked: its size, where the sample has
one, or what the type compares. -/
inductive Measured (earlier heap : Heap) (field : Field) (value : Value) : Value → Prop
  | size {first count last} : earlier.hasSize field.sample = true →
      (field.type.measure.size heap value).Yields first count last →
      Measured earlier heap field value (.int count)
  | compared {first subject last} : earlier.hasSize field.sample = false →
      (field.type.measure.compared heap value).Yields first subject last →
      Measured earlier heap field value subject

variable {catalogue : Catalogue} {earlier heap : Heap} {field : Field} {side : Side}
  {value subject other least most : Value} {check : Check} {own : List Check} {fail : Failure}
  {fails : List Failure} {first last before after : Trace}

theorem Measured.unique (steady : field.type.measure.Obeys Run.determinacy)
    (one : Measured earlier heap field value subject)
    (another : Measured earlier heap field value other) : subject = other := by
  cases one with
  | size sized counted =>
      cases another with
      | size _ again => rw [(steady.size heap value).unique counted again]
      | compared unsized _ => cases sized.symm.trans unsized
  | compared unsized found =>
      cases another with
      | size sized _ => cases sized.symm.trans unsized
      | compared _ again => exact (steady.compared heap value).unique found again

/-- A failure with the code of a bound is due to the order of the bound and what was measured. -/
theorem order_of_failure
    (asked : Check.Asked earlier field.sample field.declaration field.type.measure check)
    (plain : ∀ hook, check ≠ .custom hook)
    (failed : (check.apply field.name heap value).Yields first (.failure fail) last)
    (code : fail.code = side.code) :
    ∃ limit subject, field.declaration.bound side = some limit ∧
      Measured earlier heap field value subject ∧ heap.order side subject limit = .ok true := by
  rcases Check.code_of_failure failed with own | ⟨hook, same, _⟩
  swap
  · exact absurd same (plain hook)
  rw [code] at own
  cases asked with
  | @bySize other limit declared sized =>
      obtain rfl := Side.code_injective (Option.some.inj own)
      simp only [Check.apply, Run.yields_bind, Run.yields_lift] at failed
      obtain ⟨count, middle, counted, beyond, _, ⟨ordered, rfl⟩, failed⟩ := failed
      cases beyond with
      | false => simp at failed
      | true => exact ⟨limit, _, declared, .size sized counted, ordered⟩
  | @byValue other limit declared unsized =>
      obtain rfl := Side.code_injective (Option.some.inj own)
      simp only [Check.apply, Run.yields_bind] at failed
      obtain ⟨subject, middle, found, failed⟩ := failed
      split at failed
      next => simp at failed
      next =>
        simp only [Run.yields_bind, Run.yields_lift] at failed
        obtain ⟨beyond, _, ⟨ordered, rfl⟩, failed⟩ := failed
        cases beyond with
        | false => simp at failed
        | true => exact ⟨limit, _, declared, .compared unsized found, ordered⟩
  | allowed | matching | noRegex | integer | custom =>
      cases side <;> simp [Check.code?, Side.code] at own

/-- Below the least value and above the greatest one nothing stands that is measured alike each time,
if these two are in order. -/
theorem not_both_bounds (made : field.CompiledBy catalogue earlier)
    (listed : own ++ Check.customChecks field.declaration.custom = field.checks)
    (plain : ∀ check ∈ own, ∀ hook, check ≠ .custom hook)
    (found : (failuresOf field.name heap value own).Yields before fails after)
    (steady : field.type.measure.Obeys Run.determinacy)
    (minimum : field.declaration.minimum = some least)
    (maximum : field.declaration.maximum = some most)
    (apart : heap.order .below least most = .ok true ∨ heap.equal least most = true) :
    ¬ (Side.below.code ∈ fails.map Failure.code ∧ Side.above.code ∈ fails.map Failure.code) := by
  have ordered {side : Side} (member : side.code ∈ fails.map Failure.code) :
      ∃ limit subject, field.declaration.bound side = some limit ∧
        Measured earlier heap field value subject ∧ heap.order side subject limit = .ok true := by
    obtain ⟨fail, present, code⟩ := List.mem_map.mp member
    obtain ⟨check, known, answer, _, _, failed, rfl⟩ := failure_of_mem found present
    have asked := Check.asked_of_compile made.checked (listed ▸ List.mem_append_left _ known)
    exact order_of_failure asked (plain check known) failed code
  rintro ⟨below, above⟩
  obtain ⟨_, subject, bound, measured, short⟩ := ordered below
  obtain ⟨_, also, other, again, long⟩ := ordered above
  cases bound.symm.trans minimum
  cases other.symm.trans maximum
  obtain rfl := measured.unique steady again
  exact Heap.not_above_of_below short apart long

theorem failuresOf_customChecks {name : String} {custom : Option CustomCheck}
    (found : (failuresOf name heap value (Check.customChecks custom)).Yields before fails after) :
    fails = [] ∨ ∃ hook fail, custom = some hook ∧
      (hook.check heap value).Yields before (.failure fail) after ∧ fails = [fail.movedTo name] := by
  cases custom with
  | none => exact .inl (Run.yields_pure.mp found).1
  | some hook =>
      simp only [Check.customChecks, failuresOf_cons, failuresOf, Run.yields_bind, Run.yields_pure,
        failureOf_yields] at found
      obtain ⟨answer, _, answered, _, _, ⟨rfl, rfl⟩, rfl, rfl⟩ := found
      rcases answered with ⟨_, rfl⟩ | ⟨fail, failed, rfl⟩
      · exact .inl rfl
      · exact .inr ⟨hook, fail, rfl, failed, rfl⟩

end Field

namespace Validation

/-- A value is put to the checks of a field: it was found, or stands in for one, and fits. -/
inductive Visit.PutToChecks (world : World) (config : Configuration) (visit : Visit) :
    Value → Fit → Trace → Prop
  | intro {given found fit fitted} :
      Sought world config visit.field visit.path visit.entries visit.before (.inr given) found →
      (visit.field.type.fit world.heap (substitute world.heap visit.field.declaration given)
        visit.field.sample).Yields found fit fitted → (∀ reason, fit ≠ .refused reason) →
      PutToChecks world config visit (substitute world.heap visit.field.declaration given) fit
        fitted

section Failing

variable [Fault.Telling]

/-- The field fails, and with it every object whose fields are settled up to this one. -/
def Visit.Fails (world : World) (config : Configuration) (visit : Visit) (fail : Failure) : Prop :=
  ∃ after, (visit.guarded world config).Yields visit.before (.failed fail) after ∧
    ∀ call : Call, call.Reaches world config visit →
      (call.run world config).Yields call.before (.error fail) after

variable {world : World} {config : Configuration} {schema : Schema} {compiled : Compiled}
  {visit : Visit} {value : Value} {fit : Fit} {asked fitted told middle after : Trace}
  {fail : Failure} {rest : List Failure} {fault : Fault} {catalogue : Catalogue} {earlier : Heap}

theorem Visit.Fails.of_guarded
    (failed : (visit.guarded world config).Yields visit.before (.failed fail) after) :
    visit.Fails world config fail :=
  ⟨after, failed, fun _ reaches => reaches.fails failed⟩

section Answers

variable (put : visit.PutToChecks world config value fit fitted)

include put

omit [Fault.Telling] in
theorem admitted_of_no_failures
    (found : (visit.field.failures world.heap value).Yields fitted [] after) :
    Admitted world config visit.field visit.path visit.entries visit.before value fit after := by
  cases put with
  | intro sought compared _ =>
      exact .intro sought compared (Field.pass_of_no_failures found)

/-- The first failure of a list fails the field, wherever it was located. -/
theorem fails_of_failures {done others : List Check}
    (order : visit.field.checks = done ++ others)
    (found : (Field.failuresOf visit.field.name world.heap value done).Yields fitted (fail :: rest)
      after) :
    visit.Fails world config (fail.movedTo visit.path) := by
  obtain ⟨own, last, failed, rfl⟩ := Field.failure_of_failures found
  have failed : (visit.field.firstFailure world.heap value).Yields fitted (.failure own) last := by
    rw [Field.firstFailure, order]
    exact Field.failure_of_append failed
  rw [Failure.movedTo_movedTo]
  cases put with
  | intro sought compared fits =>
      exact .of_guarded (Visit.guarded_of_failure sought compared fits failed)

theorem fails_of_fault {text : String}
    (broke : (visit.field.firstFailure world.heap value >>=
      Field.locate world.heap visit.path).Breaks fitted fault after)
    (told : fault.told = .ok text) : visit.Fails world config (.unknown visit.path text) := by
  cases put with
  | intro sought compared fits =>
      exact .of_guarded (Visit.guarded_of_unlocated sought compared fits broke told)

end Answers

omit [Fault.Telling] in
theorem probe_eq (known : schema.compiled = some compiled)
    (named : compiled.field visit.field.name = .ok visit.field) :
    world.probe schema visit.field.name value = visit.field.failures world.heap value := by
  rw [World.probe, demandCompiled_ok.mpr known]
  exact (pure_bind compiled _).trans (named ▸ pure_bind visit.field _)

/-- Asking for all failures of a value and validating it agree, for a value that is put to the
checks of a field. Without failures the field lets the value in. With failures it fails, with the
first of them at its own place. The library's failures have the codes of the bounds, the allowed
values, the expression and the integer in this order, each once at most and not those of both bounds
where these are in order, and what the application's check has found comes last. Where a check breaks
down the field fails with the first failure of the checks before it, or, if there is none and what
broke down can be put into words, with these: its text, or its kind where the text is empty. -/
theorem probe_agrees (known : schema.compiled = some compiled)
    (named : compiled.field visit.field.name = .ok visit.field)
    (made : visit.field.CompiledBy catalogue earlier)
    (put : visit.PutToChecks world config value fit fitted)
    (alike : asked = fitted ∨ ∀ check ∈ visit.field.checks, check.Obeys Run.determinacy) :
    (∀ told, (world.probe schema visit.field.name value).Yields asked [] told → ∃ after,
      Admitted world config visit.field visit.path visit.entries visit.before value fit after) ∧
    (∀ fail rest told, (world.probe schema visit.field.name value).Yields asked (fail :: rest) told →
      visit.Fails world config (fail.movedTo visit.path)) ∧
    (∀ fails told, (world.probe schema visit.field.name value).Yields asked fails told →
      ∃ own hooked, fails = own ++ hooked ∧ (own.map Failure.code).Sublist Check.codes ∧
        (hooked = [] ∨ ∃ hook fail first last, visit.field.declaration.custom = some hook ∧
          (hook.check world.heap value).Yields first (.failure fail) last ∧
          hooked = [fail.movedTo visit.field.name]) ∧
        (visit.field.type.measure.Obeys Run.determinacy → ∀ least most,
          visit.field.declaration.minimum = some least →
          visit.field.declaration.maximum = some most →
          world.heap.order .below least most = .ok true ∨ world.heap.equal least most = true →
            ¬ ("MIN" ∈ own.map Failure.code ∧ "MAX" ∈ own.map Failure.code))) ∧
    ∀ fault told, (world.probe schema visit.field.name value).Breaks asked fault told →
      ∃ done check rest early middle, visit.field.checks = done ++ check :: rest ∧
        (Field.failuresOf visit.field.name world.heap value done).Yields asked early middle ∧
        (Field.failureOf visit.field.name world.heap value check).Breaks middle fault told ∧
        (early = [] → ∀ text, fault.told = .ok text →
          visit.Fails world config (.unknown visit.path text)) ∧
        ∀ fail others, early = fail :: others →
          visit.Fails world config (fail.movedTo visit.path) := by
  rw [probe_eq known named]
  refine ⟨fun told found => ?_, fun fail rest told found => ?_, fun fails told found => ?_,
    fun fault told broke => ?_⟩
  · obtain ⟨after, found⟩ := Field.failuresOf_from alike found
    exact ⟨after, admitted_of_no_failures put found⟩
  · obtain ⟨after, found⟩ := Field.failuresOf_from alike found
    exact fails_of_failures put (List.append_nil _).symm found
  · obtain ⟨checks, order, codes, plain⟩ := Check.codes_of_compile made.checked
    rw [Field.failures, order, Field.failuresOf_append] at found
    simp only [Run.yields_bind, Run.yields_pure] at found
    obtain ⟨own, middle, listed, hooked, last, answered, rfl, rfl⟩ := found
    refine ⟨own, hooked, rfl, (Field.codes_of_failuresOf plain listed).trans codes, ?_,
      fun steady least most minimum maximum apart =>
        Field.not_both_bounds made order.symm plain listed steady minimum maximum apart⟩
    refine (Field.failuresOf_customChecks answered).imp_right ?_
    rintro ⟨hook, fail, declared, failed, rfl⟩
    exact ⟨hook, fail, middle, _, declared, failed, rfl⟩
  · obtain ⟨done, check, rest, early, middle, order, found, broke⟩ :=
      Field.breaks_of_failuresOf broke
    rw [order] at alike
    obtain ⟨reached, last, there, also⟩ := Field.breaks_from alike found broke
    refine ⟨done, check, rest, early, middle, order, found, broke, ?_, ?_⟩
    · rintro rfl text spoken
      have unlocated : (visit.field.firstFailure world.heap value >>=
          Field.locate world.heap visit.path).Breaks fitted fault last := by
        rw [Field.firstFailure, order]
        exact Field.locate_breaks_of_pass (Field.pass_of_no_failures there) also
      exact fails_of_fault put unlocated spoken
    · rintro fail others rfl
      exact fails_of_failures put order there

end Failing

end Validation

/-! Consents have to be given, by the bounds and by the only value that is allowed, and the check of
the application turns all of them down. -/

namespace Consents

def consentClass : RecordClass := ⟨1, "Consent", [1, 0]⟩

def heap : Heap := ⟨#[.record consentClass [("given", .bool true)]]⟩

def late : CustomCheck := ⟨"late", fun _ _ => return .failure ⟨"", "LATE", "is late"⟩⟩

def declaration : Declaration where
  sample := .bool true
  minimum := some (.bool true)
  maximum := some (.bool true)
  allowed := some [.bool true]
  custom := some late

def given : Field :=
  ⟨"given", declaration, .bool true, .primitive .fallback,
    [.byValue .below (.bool true) Measure.plain.compared,
      .byValue .above (.bool true) Measure.plain.compared,
      .allowed (.ofList heap [.bool true]) (",".intercalate ["True"]), .custom late]⟩

def compiled : Compiled := .of [given] 0 (.ref 0)

def schema : Schema where
  recordClass := consentClass
  body := [("given", declaration)]
  declarations := [("given", declaration)]
  ancestry := [1, 0]
  config := none
  compiled := some compiled

def world : World where
  heap := heap
  schemas := #[.root, schema]
  configs := #[{ catalogue := 0 }]
  catalogues := #[Catalogue.builtIn]
  default := 0

/-- A consent inside of an order, which is not given. -/
def visit : Validation.Visit := ⟨1, "order", [(.text "given", .bool false)], given, []⟩

def told : List Failure :=
  [.minimum "given" "value of False < minimum value of True",
    .allowed "given" ("invalid value: False - valid values are: " ++ ",".intercalate ["True"]),
    ⟨"given", "LATE", "is late"⟩]

theorem put : visit.PutToChecks world (world.config 0) (.bool false) .toParse [] :=
  .intro (Validation.sought_of_inputOf rfl) rfl (by simp)

end Consents

/-- Of the three failures that the value has the first one fails the consent, at its own place. -/
theorem probe_agrees_consents :
    Consents.visit.Fails Consents.world (Consents.world.config 0)
      (.minimum "order.given" "value of False < minimum value of True") ∧
    ∃ own hooked, Consents.told = own ++ hooked ∧ (own.map Failure.code).Sublist Check.codes ∧
      ¬ ("MIN" ∈ own.map Failure.code ∧ "MAX" ∈ own.map Failure.code) := by
  have known : Consents.schema.compiled = some Consents.compiled := rfl
  have named : Consents.compiled.field Consents.visit.field.name = .ok Consents.visit.field := rfl
  have made : Consents.visit.field.CompiledBy Catalogue.builtIn Consents.heap := ⟨[], [], rfl⟩
  have found : (Consents.world.probe Consents.schema Consents.visit.field.name (.bool false)).Yields
      [] Consents.told [] := rfl
  obtain ⟨_, fails, listed, _⟩ :=
    Validation.probe_agrees known named made Consents.put (.inl (Eq.refl []))
  obtain ⟨own, hooked, split, codes, _, apart⟩ := listed _ _ found
  exact ⟨fails _ _ _ found, own, hooked, split, codes,
    apart ValueType.Obeys.primitive.measure _ _ rfl rfl (.inr rfl)⟩

namespace Consents

/-- Gives up on every value without a word. -/
def speechless : CustomCheck := ⟨"speechless", fun _ _ => throw (.raised "RuntimeError" "")⟩

def unspoken : Field :=
  ⟨"given", { sample := .bool true, custom := some speechless }, .bool true, .primitive .fallback,
    [.custom speechless]⟩

def unspokenSchema : Schema :=
  { schema with
    body := [("given", unspoken.declaration)]
    declarations := [("given", unspoken.declaration)]
    compiled := some (.of [unspoken] 0 (.ref 0)) }

def unspokenWorld : World := { world with schemas := #[.root, unspokenSchema] }

def unspokenVisit : Validation.Visit := ⟨1, "", [(.text "given", .bool true)], unspoken, []⟩

end Consents

open Consents in
/-- What breaks the check down has no text, and the field fails with its kind. -/
theorem unknown_without_text :
    ∃ fault told, (unspokenWorld.probe unspokenSchema "given" (.bool true)).Breaks [] fault told ∧
      fault.text = "" ∧
      unspokenVisit.Fails unspokenWorld (unspokenWorld.config 0) (.unknown "given" "RuntimeError") ∧
      ¬ unspokenVisit.Fails unspokenWorld (unspokenWorld.config 0) (.unknown "given" fault.text) := by
  refine ⟨.raised "RuntimeError" "", _, rfl, rfl, .of_guarded rfl, ?_⟩
  rintro ⟨after, failed, _⟩
  have guarded : (unspokenVisit.guarded unspokenWorld (unspokenWorld.config 0)).Yields []
      (.failed (.unknown "given" "RuntimeError")) _ := rfl
  have same := FieldOutcome.failed.inj (failed.unique guarded).1
  have text : "" = "RuntimeError" := congrArg Failure.message same
  exact absurd text (by decide)

end Exemplar
