import Exemplar.Proofs.Runs
import Exemplar.Schema

/-!
Which checks a declaration asks for, and what they say. A value passes when every check passes; a
failure is the answer of one check, and each kind of check has a code of its own, so that a code
which no kind has is the word of the application.
-/

namespace Exemplar

def Declaration.bound (declaration : Declaration) : Side → Option Value
  | .below => declaration.minimum
  | .above => declaration.maximum

/-- The code of the failures of a bound on this side. -/
def Side.code : Side → String
  | .below => "MIN"
  | .above => "MAX"

namespace Check

/-- The codes of the checks that are not the application's. -/
def codes : List String := ["MIN", "MAX", "ALLOWED", "REGEX", "INTEGER"]

variable {check : Check} {name : String} {heap : Heap} {value : Value} {fail : Failure}
  {before after : Trace}

theorem outOfBounds_code {side : Side} {subject limit unit : String} :
    (outOfBounds side name subject limit unit).code = side.code := by
  cases side <;> rfl

/-- The code of the failures that a check makes, none where it makes none of its own. -/
def code? : Check → Option String
  | .bySize side .. | .byValue side .. => some side.code
  | .allowed .. => some "ALLOWED"
  | .matching _ => some "REGEX"
  | .integer => some "INTEGER"
  | .noRegex _ | .custom _ => none

/-- A failure has the code of the check that found it, or is what a hook answered. -/
theorem code_of_failure
    (failed : (check.apply name heap value).Yields before (.failure fail) after) :
    check.code? = some fail.code ∨ ∃ hook, check = .custom hook ∧
      (hook.check heap value).Yields before (.failure fail) after := by
  cases check with
  | bySize side word limit measured =>
      simp only [apply, Run.yields_bind, Run.yields_lift] at failed
      obtain ⟨count, _, _, beyond, _, _, failed⟩ := failed
      split at failed
      next =>
        simp only [Run.yields_bind, Run.yields_pure, Verdict.failure.injEq] at failed
        obtain ⟨_, _, _, _, _, _, rfl, _⟩ := failed
        exact .inl (congrArg some outOfBounds_code.symm)
      next => simp at failed
  | byValue side limit compared =>
      simp only [apply, Run.yields_bind] at failed
      obtain ⟨subject, _, _, failed⟩ := failed
      split at failed
      next => simp at failed
      next =>
        simp only [Run.yields_bind, Run.yields_lift] at failed
        obtain ⟨beyond, _, _, failed⟩ := failed
        split at failed
        next =>
          simp only [Run.yields_bind, Run.yields_pure, Verdict.failure.injEq] at failed
          obtain ⟨_, _, _, _, _, _, rfl, _⟩ := failed
          exact .inl (congrArg some outOfBounds_code.symm)
        next => simp at failed
  | allowed choices listing =>
      simp only [apply] at failed
      split at failed
      next => simp at failed
      next =>
        simp only [Run.yields_bind, Run.yields_pure, Verdict.failure.injEq] at failed
        obtain ⟨_, _, _, rfl, _⟩ := failed
        exact .inl rfl
  | matching pattern =>
      simp only [apply, Run.yields_bind] at failed
      obtain ⟨shown, _, _, failed⟩ := failed
      split at failed
      next => simp at failed
      next =>
        simp only [Run.yields_pure, Verdict.failure.injEq] at failed
        obtain ⟨rfl, _⟩ := failed
        exact .inl rfl
  | noRegex className => simp [apply] at failed
  | integer =>
      simp only [apply] at failed
      split at failed
      next => simp at failed
      next =>
        simp only [Run.yields_bind, Run.yields_pure, Verdict.failure.injEq] at failed
        obtain ⟨_, _, _, rfl, _⟩ := failed
        exact .inl rfl
  | custom hook => exact .inr ⟨hook, rfl, failed⟩

theorem side_code_mem {side : Side} : side.code ∈ codes := by
  cases side <;> simp [Side.code, codes]

theorem code_or_custom
    (failed : (check.apply name heap value).Yields before (.failure fail) after) :
    fail.code ∈ codes ∨ ∃ hook, check = .custom hook ∧
      (hook.check heap value).Yields before (.failure fail) after := by
  refine (code_of_failure failed).imp_left fun own => ?_
  cases check with
  | bySize side | byValue side => exact Option.some.inj own ▸ side_code_mem
  | allowed | matching | integer => simp [← Option.some.inj own, codes]
  | noRegex | custom => cases own

theorem compile_eq {sample : Value} {declaration : Declaration} {measure : Measure}
    {checks : List Check}
    (compiled : Check.compile heap sample declaration measure = .ok checks) :
    ∃ allowed regex, allowedChecks heap declaration.allowed = .ok allowed ∧
      regexChecks heap declaration.regex = .ok regex ∧
      checks = boundChecks heap sample measure .below declaration.minimum ++
        boundChecks heap sample measure .above declaration.maximum ++ allowed ++ regex ++
        integerChecks heap sample declaration.integer ++ customChecks declaration.custom := by
  unfold Check.compile at compiled
  cases allowed : allowedChecks heap declaration.allowed with
  | error fault => simp [allowed, bind, Except.bind] at compiled
  | ok first =>
      cases regex : regexChecks heap declaration.regex with
      | error fault => simp [allowed, regex, bind, Except.bind] at compiled
      | ok second =>
          simp only [allowed, regex, bind, Except.bind, pure, Except.pure, Except.ok.injEq]
            at compiled
          exact ⟨first, second, rfl, rfl, compiled.symm⟩

theorem mem_boundChecks {sample : Value} {measure : Measure} {side : Side} {bound : Option Value} :
    check ∈ boundChecks heap sample measure side bound ↔ ∃ limit, bound = some limit ∧
      (heap.hasSize sample = true ∧
          check = .bySize side (sizeWord (heap.look sample)) limit measure.size ∨
        heap.hasSize sample = false ∧ check = .byValue side limit measure.compared) := by
  cases bound with
  | none => simp [boundChecks]
  | some limit => by_cases sized : heap.hasSize sample = true <;> simp [boundChecks, sized]

theorem allowedChecks_some {members : List Value} {checks : List Check} :
    allowedChecks heap (some members) = .ok checks ↔
      ∃ texts, Heap.textAll heap.display members = .ok texts ∧
        checks = [.allowed (.ofList heap members) (",".intercalate texts)] := by
  cases listing : Heap.textAll heap.display members with
  | error fault => simp [allowedChecks, listing, bind, Except.bind]
  | ok texts => simp [allowedChecks, listing, bind, Except.bind, pure, Except.pure, eq_comm]

theorem mem_allowedChecks {choices : Option (List Value)} {checks : List Check}
    (compiled : allowedChecks heap choices = .ok checks) :
    check ∈ checks ↔ ∃ members texts, choices = some members ∧
      Heap.textAll heap.display members = .ok texts ∧
      check = .allowed (.ofList heap members) (",".intercalate texts) := by
  cases choices with
  | none =>
      cases compiled
      simp
  | some members =>
      obtain ⟨texts, shown, rfl⟩ := allowedChecks_some.mp compiled
      simp [shown]

/-- An expression makes one check, of the pattern that it is or is written for. -/
theorem regexChecks_some {expression : Value} {checks : List Check}
    (compiled : regexChecks heap (some expression) = .ok checks) :
    (∃ pattern, checks = [.matching pattern] ∧
        (heap.look expression = .pattern pattern ∨ ∃ source, heap.look expression = .text source ∧
          Pattern.compile? source {} = some pattern)) ∨
      checks = [.noRegex (heap.look expression).qualifiedName] ∧
        (∀ source, heap.look expression ≠ .text source) ∧
        ∀ pattern, heap.look expression ≠ .pattern pattern := by
  simp only [regexChecks] at compiled
  split at compiled
  next source shape =>
    split at compiled
    next pattern found =>
      cases compiled
      exact .inl ⟨pattern, rfl, .inr ⟨source, shape, found⟩⟩
    next => cases compiled
  next pattern shape =>
    cases compiled
    exact .inl ⟨pattern, rfl, .inl shape⟩
  next unwritten uncompiled =>
    cases compiled
    exact .inr ⟨rfl, unwritten, uncompiled⟩

theorem of_mem_integerChecks {sample : Value} {integer : Option Value}
    (member : check ∈ integerChecks heap sample integer) :
    check = .integer ∧ heap.hasSize sample = false ∧ ∀ recordClass fields,
      heap.look sample ≠ .record recordClass fields := by
  unfold integerChecks at member
  unfold Heap.hasSize Heap.length?
  split at member
  all_goals first | cases member | split at member
  all_goals simp_all

theorem mem_customChecks {custom : Option CustomCheck} :
    check ∈ customChecks custom ↔ ∃ hook, custom = some hook ∧ check = .custom hook := by
  cases custom <;> simp [customChecks]

/-- The checks that a declaration asks for. Bounds are on the size where the sample has one, and
the integer check is for numbers. -/
inductive Asked (heap : Heap) (sample : Value) (declaration : Declaration) (measure : Measure) :
    Check → Prop
  | bySize {side : Side} {limit : Value} : declaration.bound side = some limit →
      heap.hasSize sample = true → Asked heap sample declaration measure
        (.bySize side (sizeWord (heap.look sample)) limit measure.size)
  | byValue {side : Side} {limit : Value} : declaration.bound side = some limit →
      heap.hasSize sample = false →
      Asked heap sample declaration measure (.byValue side limit measure.compared)
  | allowed {choices : List Value} {texts : List String} : declaration.allowed = some choices →
      Heap.textAll heap.display choices = .ok texts → Asked heap sample declaration measure
        (.allowed (.ofList heap choices) (",".intercalate texts))
  | matching {expression : Value} {pattern : Pattern} : declaration.regex = some expression →
      (heap.look expression = .pattern pattern ∨ ∃ source, heap.look expression = .text source ∧
        Pattern.compile? source {} = some pattern) →
      Asked heap sample declaration measure (.matching pattern)
  | noRegex {expression : Value} : declaration.regex = some expression →
      (∀ source, heap.look expression ≠ .text source) →
      (∀ pattern, heap.look expression ≠ .pattern pattern) →
      Asked heap sample declaration measure (.noRegex (heap.look expression).qualifiedName)
  | integer : .integer ∈ integerChecks heap sample declaration.integer →
      heap.hasSize sample = false →
      (∀ recordClass fields, heap.look sample ≠ .record recordClass fields) →
      Asked heap sample declaration measure .integer
  | custom {hook : CustomCheck} : declaration.custom = some hook →
      Asked heap sample declaration measure (.custom hook)

section Asking

variable {sample : Value} {declaration : Declaration} {measure : Measure} {checks : List Check}

theorem asked_of_mem_regexChecks (compiled : regexChecks heap declaration.regex = .ok checks)
    (member : check ∈ checks) : Asked heap sample declaration measure check := by
  cases declared : declaration.regex with
  | none =>
      rw [declared] at compiled
      cases compiled
      cases member
  | some expression =>
      rw [declared] at compiled
      rcases regexChecks_some compiled with ⟨pattern, rfl, made⟩ | ⟨rfl, unwritten, uncompiled⟩
      · rw [List.mem_singleton.mp member]
        exact .matching declared made
      · rw [List.mem_singleton.mp member]
        exact .noRegex declared unwritten uncompiled

/-- Only what is asked for is checked. -/
theorem asked_of_compile (compiled : Check.compile heap sample declaration measure = .ok checks)
    (member : check ∈ checks) : Asked heap sample declaration measure check := by
  obtain ⟨allowed, regex, listed, expression, rfl⟩ := compile_eq compiled
  have bound {side : Side}
      (member : check ∈ boundChecks heap sample measure side (declaration.bound side)) :
      Asked heap sample declaration measure check := by
    obtain ⟨limit, declared, ⟨sized, rfl⟩ | ⟨unsized, rfl⟩⟩ := mem_boundChecks.mp member
    · exact .bySize declared sized
    · exact .byValue declared unsized
  simp only [List.mem_append] at member
  rcases member with ((((below | above) | choice) | pattern) | whole) | own
  · exact @bound .below below
  · exact @bound .above above
  · obtain ⟨choices, texts, declared, shown, rfl⟩ := (mem_allowedChecks listed).mp choice
    exact .allowed declared shown
  · exact asked_of_mem_regexChecks expression pattern
  · obtain ⟨rfl, unsized, single⟩ := of_mem_integerChecks whole
    exact .integer whole unsized single
  · obtain ⟨hook, declared, rfl⟩ := mem_customChecks.mp own
    exact .custom declared

theorem allowed_mem_checks {choices : List Value}
    (compiled : Check.compile heap sample declaration measure = .ok checks)
    (declared : declaration.allowed = some choices) :
    ∃ listing, .allowed (.ofList heap choices) listing ∈ checks := by
  obtain ⟨allowed, regex, listed, _, rfl⟩ := compile_eq compiled
  rw [declared, allowedChecks_some] at listed
  obtain ⟨texts, _, rfl⟩ := listed
  exact ⟨",".intercalate texts, by simp⟩

theorem custom_of_compile {hook : CustomCheck}
    (compiled : Check.compile heap sample declaration measure = .ok checks)
    (member : .custom hook ∈ checks) : declaration.custom = some hook := by
  cases asked_of_compile compiled member with
  | custom declared => exact declared

end Asking

end Check

namespace Field

variable {name : String} {heap : Heap} {value : Value} {checks : List Check} {fail : Failure}
  {before after : Trace}

/-- What ends the checks is the answer of one of them. -/
theorem answer_of_firstFailureOf {verdict : Verdict}
    (answered : (firstFailureOf name heap value checks).Yields before verdict after)
    (stopped : verdict ≠ .pass) :
    ∃ check ∈ checks, ∃ first last, (check.apply name heap value).Yields first verdict last := by
  induction checks generalizing before with
  | nil =>
      simp only [firstFailureOf, Run.yields_pure] at answered
      exact absurd answered.1 stopped
  | cons check rest ih =>
      simp only [firstFailureOf, Run.yields_bind] at answered
      obtain ⟨answer, middle, applied, answered⟩ := answered
      cases answer with
      | pass =>
          obtain ⟨later, member, found⟩ := ih answered
          exact ⟨later, List.mem_cons_of_mem check member, found⟩
      | failure _ | other _ =>
          obtain ⟨rfl, _⟩ := Run.yields_pure.mp answered
          exact ⟨check, by simp, before, _, applied⟩

/-- A failure that ends the checks is what one of them answers once all before it have passed. -/
theorem failed_at_of_firstFailureOf
    (failed : (firstFailureOf name heap value checks).Yields before (.failure fail) after) :
    ∃ done check later first, checks = done ++ check :: later ∧
      (firstFailureOf name heap value done).Yields before .pass first ∧
      (check.apply name heap value).Yields first (.failure fail) after := by
  induction checks generalizing before with
  | nil => simp [firstFailureOf] at failed
  | cons check rest ih =>
      simp only [firstFailureOf, Run.yields_bind] at failed
      obtain ⟨verdict, middle, applied, failed⟩ := failed
      cases verdict with
      | pass =>
          obtain ⟨done, other, later, first, rfl, passed, answered⟩ := ih failed
          exact ⟨check :: done, other, later, first, rfl, applied.bind.trans passed, answered⟩
      | failure own =>
          obtain ⟨same, rfl⟩ := Run.yields_pure.mp failed
          cases same
          exact ⟨[], check, rest, before, rfl, Run.yields_pure.mpr ⟨rfl, rfl⟩, applied⟩
      | other answer => simp at failed

theorem pass_of_firstFailureOf
    (passed : (firstFailureOf name heap value checks).Yields before .pass after) :
    ∀ check ∈ checks, ∃ first last, (check.apply name heap value).Yields first .pass last := by
  induction checks generalizing before with
  | nil => simp
  | cons check rest ih =>
      simp only [firstFailureOf, Run.yields_bind] at passed
      obtain ⟨verdict, middle, applied, passed⟩ := passed
      cases verdict with
      | pass =>
          intro other member
          rcases List.mem_cons.mp member with rfl | later
          · exact ⟨before, middle, applied⟩
          · exact ih passed other later
      | failure _ => simp at passed
      | other _ => simp at passed

theorem firstFailureOf_congr {other : Value}
    (same : ∀ check ∈ checks, check.apply name heap other = check.apply name heap value) :
    firstFailureOf name heap other checks = firstFailureOf name heap value checks := by
  induction checks with
  | nil => rfl
  | cons check rest ih =>
      simp only [List.forall_mem_cons] at same
      simp only [firstFailureOf, same.1, ih same.2]

/-- Checks go on where those before them pass. -/
theorem firstFailureOf_append {done rest : List Check} :
    firstFailureOf name heap value (done ++ rest) = (do
      match ← firstFailureOf name heap value done with
      | .pass => firstFailureOf name heap value rest
      | verdict => return verdict) := by
  induction done with
  | nil => simp [firstFailureOf]
  | cons check done ih =>
      simp only [List.cons_append, firstFailureOf, bind_assoc]
      refine bind_congr fun verdict => ?_
      cases verdict <;> simp [ih]

/-- The checks of the least and of the largest value, which come before all others. -/
def bounds (heap : Heap) (field : Field) : List Check :=
  Check.boundChecks heap field.sample field.type.measure .below field.declaration.minimum ++
    Check.boundChecks heap field.sample field.type.measure .above field.declaration.maximum

end Field

end Exemplar
