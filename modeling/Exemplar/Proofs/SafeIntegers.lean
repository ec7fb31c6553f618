import Exemplar.Proofs.Containment
import Exemplar.Proofs.Rechecks

/-!
What a field stores whose sample is a plain integer. The shape that is asked for lets every number
in, the integer check holds back what is no integer or is too large to be told from its neighbours
as a float, and parsing turns a float without a fraction into the integer it is equal to. What is
stored is therefore a safe integer, on whatever way the value came to the field.
-/

namespace Exemplar

namespace Number.Dyadic

variable {value : Dyadic} {whole : Int}

/-- A number is the integer that it is equal to. -/
theorem toInt_eq_some_iff : value.toInt? = some whole ↔ value.toRat = whole := by
  refine ⟨toRat_of_toInt, fun equal => ?_⟩
  cases found : value.toInt? with
  | some other =>
      have same : (other : ℚ) = whole := (toRat_of_toInt found).symm.trans equal
      rw [Int.cast_injective same]
  | none =>
      exfalso
      simp only [toInt?] at found
      split at found
      next => cases found
      next lowered =>
        obtain ⟨power, shift⟩ := Int.eq_ofNat_of_zero_le (show 0 ≤ -value.exponent by omega)
        have exponent : value.exponent = -power := by omega
        have numerator : value.numerator = 2 ^ power * whole := by
          rw [toRat, exponent, zpow_neg, zpow_natCast] at equal
          have positive : (2 : ℚ) ^ power ≠ 0 := pow_ne_zero _ two_ne_zero
          field_simp at equal
          exact_mod_cast equal
        simp [shift, numerator] at found

end Number.Dyadic

/-- An integer of whatever kind, or a float; truth values are no numbers. -/
def Value.isNumber : Value → Bool
  | .int _ | .bigInteger _ | .float _ => true
  | _ => false

theorem Value.shapeName_of_isNumber {value : Value} (number : value.isNumber = true) :
    value.shapeName = "number" := by
  cases value <;> first | rfl | cases number

namespace Heap

variable {heap : Heap} {value sample : Value} {whole start : Int}

/-- The value is an integer, or a float that is equal to one. -/
inductive Integral (heap : Heap) (value : Value) (whole : Int) : Prop
  | int : heap.look value = .int whole → Integral heap value whole
  | bigInteger : heap.look value = .bigInteger whole → Integral heap value whole
  | float {negative : Bool} {mantissa : Nat} {exponent : Int} :
      heap.look value = .float (.finite negative mantissa exponent) →
      (⟨Number.Binary64.signed negative mantissa, exponent⟩ : Number.Dyadic).toRat = whole →
      Integral heap value whole

/-- The value is an integer that a float still tells from its neighbours. -/
def IsSafe (heap : Heap) (value : Value) : Prop :=
  ∃ whole, heap.Integral value whole ∧ whole.natAbs ≤ 9007199254740991

theorem holdsSafeInteger_iff : heap.holdsSafeInteger value = true ↔ heap.IsSafe value := by
  have limit : safeIntegerLimit = 9007199254740991 := rfl
  unfold holdsSafeInteger
  rw [limit]
  constructor
  · intro held
    split at held
    next whole shape => exact ⟨whole, .int shape, by simpa using held⟩
    next whole shape => exact ⟨whole, .bigInteger shape, by simpa using held⟩
    next number shape =>
      split at held
      next whole integral =>
        cases number with
        | nan | infinite _ => cases integral
        | finite negative mantissa exponent =>
            exact ⟨whole, .float shape (Number.Dyadic.toInt_eq_some_iff.mp integral),
              by simpa using held⟩
      next => cases held
    next => cases held
  · rintro ⟨whole, integral, small⟩
    cases integral with
    | int shape | bigInteger shape => simpa [shape] using small
    | float shape equal =>
        have found := Number.Dyadic.toInt_eq_some_iff.mpr equal
        simpa [shape, Number.Binary64.toInt?, found] using small

theorem Integral.isNumber (integral : heap.Integral value whole) :
    (heap.look value).isNumber = true := by
  cases integral with
  | int shape | bigInteger shape | float shape _ =>
      rw [shape]
      rfl

/-- For an integer sample, what is stored for a number without a fraction is an integer. -/
theorem Integral.look_parse (integral : heap.Integral value whole)
    (started : heap.look sample = .int start) :
    heap.look (Primitive.parse heap sample value) = .int whole ∨
      heap.look (Primitive.parse heap sample value) = .bigInteger whole := by
  cases integral with
  | int shape =>
      left
      simp [Primitive.parse, shape]
  | bigInteger shape =>
      right
      simp [Primitive.parse, shape]
  | float shape equal =>
      have found := Number.Dyadic.toInt_eq_some_iff.mpr equal
      have stored : Primitive.parse heap sample value = .int whole := by
        simp [Primitive.parse, started, shape, Number.Binary64.toInt?, found]
      rw [stored]
      exact .inl rfl

theorem Integral.equal_self (integral : heap.Integral value whole) :
    heap.equal value value = true := by
  have number : ∃ place, (heap.look value).quantity? = some (.point (.at place)) := by
    cases integral with
    | int shape | bigInteger shape => exact ⟨.ofInt whole, by rw [shape]; rfl⟩
    | float shape _ => exact ⟨_, by rw [shape]; rfl⟩
  obtain ⟨place, counts⟩ := number
  have itself : (Quantity.point (.at place)).same (.point (.at place)) = true :=
    Number.Dyadic.same_iff.mpr rfl
  rw [equal_of_quantity counts itself, counts]
  exact itself

end Heap

namespace Check

variable {name shown : String} {heap : Heap} {value : Value} {fault : Fault} {before : Trace}

theorem integer_fails (unsound : ¬ heap.IsSafe value) (displayed : heap.display value = .ok shown) :
    (integer.apply name heap value).Yields before
      (.failure (.integer name s!"value of {shown} is not a safe integer")) before := by
  simp only [apply, if_neg (unsound ∘ Heap.holdsSafeInteger_iff.mp)]
  exact (Run.yields_of_ok displayed).bind.trans rfl

theorem integer_breaks (unsound : ¬ heap.IsSafe value)
    (undisplayed : heap.display value = .error fault) :
    (integer.apply name heap value).Breaks before fault before := by
  simp only [apply, if_neg (unsound ∘ Heap.holdsSafeInteger_iff.mp)]
  exact (Run.breaks_of_error undisplayed).bind

end Check

theorem Field.firstFailureOf_singleton {check : Check} {name : String} {heap : Heap}
    {value : Value} : firstFailureOf name heap value [check] = check.apply name heap value := by
  refine Eq.trans (bind_congr fun verdict => ?_) (bind_pure _)
  cases verdict <;> rfl

/-- The declaration puts no constraint on values but that they be integers. -/
structure Declaration.Unconstrained (declaration : Declaration) : Prop where
  minimum : declaration.minimum = none
  maximum : declaration.maximum = none
  allowed : declaration.allowed = none
  regex : declaration.regex = none
  custom : declaration.custom = none

/-- A field of the built-in types whose sample is a plain integer, with the check of integers among
its checks. -/
structure Field.HoldsIntegers (field : Field) (start : Int) : Prop where
  sample : field.sample = .int start
  type : field.type = .primitive .fallback
  checked : .integer ∈ field.checks

namespace Field.CompiledBy

variable {field : Field} {catalogue : Catalogue} {earlier : Heap} {start : Int}

theorem integerChecks_eq (sample : field.sample = .int start)
    (asked : ∀ setting, field.declaration.integer = some setting →
      earlier.isTruthy setting = true) :
    Check.integerChecks earlier field.sample field.declaration.integer = [.integer] := by
  rw [sample]
  cases set : field.declaration.integer with
  | none => rfl
  | some setting => exact if_pos (asked setting set)

theorem holdsIntegers (compiled : field.CompiledBy Catalogue.builtIn earlier)
    (sample : field.sample = .int start)
    (asked : ∀ setting, field.declaration.integer = some setting →
      earlier.isTruthy setting = true) : field.HoldsIntegers start where
  sample := sample
  type := compiled.typed.unique (.plain (by rw [sample]; rfl) (by rw [sample]; rfl))
  checked := by
    obtain ⟨allowed, regex, _, _, order⟩ := Check.compile_eq compiled.checked
    simp [order, integerChecks_eq sample asked]

theorem checks_of_unconstrained (compiled : field.CompiledBy catalogue earlier)
    (sample : field.sample = .int start)
    (asked : ∀ setting, field.declaration.integer = some setting →
      earlier.isTruthy setting = true)
    (free : field.declaration.Unconstrained) : field.checks = [.integer] := by
  obtain ⟨allowed, regex, listed, expression, order⟩ := Check.compile_eq compiled.checked
  rw [free.allowed] at listed
  rw [free.regex] at expression
  cases listed
  cases expression
  rw [order, integerChecks_eq sample asked, free.minimum, free.maximum, free.custom]
  rfl

end Field.CompiledBy

namespace Validation

/-- What becomes of an input of a field with a plain integer for its sample and with no constraint
but that. -/
structure SortsIntegers (world : World) (config : Configuration) (visit : Visit) (given : Value)
    (found : Trace) : Prop where
  /-- Every safe integer is stored, be it given as a float or not. -/
  stores {whole} : world.heap.Integral given whole → whole.natAbs ≤ 9007199254740991 →
    ∃ stored, (visit.guarded world config).Yields visit.before (.stored stored) found ∧
      (world.heap.look stored = .int whole ∨ world.heap.look stored = .bigInteger whole)
  only {stored after} :
    (visit.guarded world config).Yields visit.before (.stored stored) after →
    world.heap.IsSafe given
  /-- Every other number fails the integer check. -/
  fails {shown} : (world.heap.look given).isNumber = true → ¬ world.heap.IsSafe given →
    world.heap.display given = .ok shown →
    (visit.guarded world config).Yields visit.before
      (.failed (.integer visit.path s!"value of {shown} is not a safe integer")) found
  /-- A number that is too long to be shown breaks the field down instead. -/
  breaks {fault} : (world.heap.look given).isNumber = true → ¬ world.heap.IsSafe given →
    world.heap.display given = .error fault →
    (visit.guarded world config).Yields visit.before
      (.failed (.unknown visit.path fault.summary)) (found ++ [visit.line])
  boolean {truth} : world.heap.look given = .bool truth →
    (visit.guarded world config).Yields visit.before
      (.failed (.type visit.path "expected number but got boolean")) found

/-- What a field with a plain integer for its sample stores. -/
structure StoresSafeIntegers (world : World) (config : Configuration) (visit : Visit) :
    Prop where
  /-- It is a safe integer, equal to the value that the checks let in. -/
  safe {stored after} : (visit.guarded world config).Yields visit.before (.stored stored) after →
    ∃ value whole, Admitted world config visit.field visit.path visit.entries visit.before value
        .toParse after ∧
      world.heap.Integral value whole ∧ whole.natAbs ≤ 9007199254740991 ∧
      (world.heap.look stored = .int whole ∨ world.heap.look stored = .bigInteger whole) ∧
      world.heap.equal stored value = true
  unconstrained {given found} : visit.field.declaration.Unconstrained →
    Sought world config visit.field visit.path visit.entries visit.before (.inr given) found →
    SortsIntegers world config visit given found

variable {world : World} {config : Configuration} {earlier : Heap} {visit : Visit} {start : Int}

namespace Visit

variable {value given stored : Value} {found before after : Trace}

section Integers

variable (integers : visit.field.HoldsIntegers start)

include integers

theorem fit_eq : visit.field.type.fit world.heap value visit.field.sample =
    pure (Primitive.fit world.heap value (.int start)) := by
  rw [integers.type, integers.sample]
  rfl

theorem fit_of_isNumber (number : (world.heap.look value).isNumber = true) :
    (visit.field.type.fit world.heap value visit.field.sample).Yields before .toParse before := by
  rw [fit_eq integers]
  refine Run.yields_pure.mpr ⟨?_, rfl⟩
  have name : world.heap.shapeName value = "number" := Value.shapeName_of_isNumber number
  have expected : world.heap.shapeName (.int start) = "number" := rfl
  simp only [Primitive.fit, expected, name, if_true]

/-- What is stored is what is parsed of a value that is let in, which is a safe integer. -/
theorem parsed_of_stored
    (ran : (visit.guarded world config).Yields visit.before (.stored stored) after) :
    ∃ value, Admitted world config visit.field visit.path visit.entries visit.before value .toParse
        after ∧
      world.heap.IsSafe value ∧ stored = Primitive.parse world.heap (.int start) value := by
  cases settles_of_guardField ran nofun with
  | unsought sought => cases sought
  | settled admitted =>
      obtain ⟨_, compared, _⟩ := admitted
      rw [fit_eq integers] at compared
      simp only [Primitive.fit, Run.yields_pure] at compared
      split at compared <;> cases compared.1
  | parsed admitted parsed =>
      rw [integers.type, integers.sample, parseTo_primitive] at parsed
      obtain ⟨same, rfl⟩ := Run.yields_pure.mp parsed
      refine ⟨_, admitted, ?_, Except.ok.inj same⟩
      obtain ⟨_, _, passed⟩ := admitted
      obtain ⟨_, _, applied⟩ := Field.pass_of_firstFailureOf passed _ integers.checked
      exact Heap.holdsSafeInteger_iff.mp (Check.integer_passes.mp applied).1

/-- A number that passes the checks is stored as it is parsed. -/
theorem guarded_of_passed
    (sought : Sought world config visit.field visit.path visit.entries visit.before (.inr given)
      found)
    (unchanged : substitute world.heap visit.field.declaration given = given)
    (number : (world.heap.look given).isNumber = true)
    (passed : (visit.field.firstFailure world.heap given).Yields found .pass found) :
    (visit.guarded world config).Yields visit.before
      (.stored (Primitive.parse world.heap (.int start) given)) found := by
  have compared : (visit.field.type.fit world.heap given visit.field.sample).Yields found .toParse
      found := fit_of_isNumber integers number
  have admitted : Admitted world config visit.field visit.path visit.entries visit.before given
      .toParse found := by
    rw [← unchanged] at compared passed
    have admitted := Admitted.intro sought compared passed
    rwa [unchanged] at admitted
  refine guarded_of_parsed admitted ?_
  rw [integers.type, integers.sample, parseTo_primitive]
  exact Run.yields_pure.mpr ⟨rfl, rfl⟩

/-- Where the integer check is the only one, it sorts the inputs. -/
theorem sortsIntegers (only : visit.field.checks = [.integer])
    (unchanged : substitute world.heap visit.field.declaration given = given)
    (sought : Sought world config visit.field visit.path visit.entries visit.before (.inr given)
      found) : SortsIntegers world config visit given found := by
  have checks : visit.field.firstFailure world.heap given =
      Check.integer.apply visit.field.name world.heap given := by
    rw [Field.firstFailure, only, Field.firstFailureOf_singleton]
  have fits (number : (world.heap.look given).isNumber = true) :
      (visit.field.type.fit world.heap (substitute world.heap visit.field.declaration given)
        visit.field.sample).Yields found .toParse found := by
    rw [unchanged]
    exact fit_of_isNumber integers number
  have started : world.heap.look (.int start) = .int start := rfl
  refine ⟨fun integral small => ?_, fun ran => ?_, fun {shown} number large displayed => ?_,
    fun number large undisplayed => ?_, fun shape => ?_⟩
  · have safe : world.heap.IsSafe given := ⟨_, integral, small⟩
    have passed : (visit.field.firstFailure world.heap given).Yields found .pass found :=
      checks ▸ Check.integer_passes.mpr ⟨Heap.holdsSafeInteger_iff.mpr safe, rfl⟩
    exact ⟨_, guarded_of_passed integers sought unchanged integral.isNumber passed,
      integral.look_parse started⟩
  · obtain ⟨value, ⟨reached, _, _⟩, safe, _⟩ := parsed_of_stored integers ran
    obtain ⟨same, _⟩ := (inputOf_of_sought reached).unique (inputOf_of_sought sought)
    obtain rfl := Sum.inr.inj same
    rwa [unchanged] at safe
  · have failed : (visit.field.firstFailure world.heap (substitute world.heap
        visit.field.declaration given)).Yields found (.failure (.integer visit.field.name
          s!"value of {shown} is not a safe integer")) found := by
      rw [unchanged, checks]
      exact Check.integer_fails large displayed
    exact guarded_of_failure sought (fits number) (by simp) failed
  · refine guarded_of_fault sought (fits number) (by simp) ?_ rfl
    rw [unchanged, checks]
    exact Check.integer_breaks large undisplayed
  · refine guarded_of_refused sought ?_
    rw [unchanged, fit_eq integers]
    refine Run.yields_pure.mpr ⟨?_, rfl⟩
    simp only [Primitive.fit, Heap.shapeName, shape, started, Value.shapeName]
    rfl

end Integers

end Visit

/-- What a field with a plain integer for its sample stores is a safe integer, under whatever
constraints, and with a default or a fallback in place of the input as well; without other
constraints every safe integer is stored, and every other number is told to be unsafe. -/
theorem int_fields_store_safe_integers
    (compiled : visit.field.CompiledBy Catalogue.builtIn earlier)
    (sample : visit.field.sample = .int start)
    (asked : ∀ setting, visit.field.declaration.integer = some setting →
      earlier.isTruthy setting = true) : StoresSafeIntegers world config visit := by
  have integers := compiled.holdsIntegers sample asked
  have started : world.heap.look (.int start) = .int start := rfl
  refine ⟨fun ran => ?_, fun {given found} free sought => ?_⟩
  · obtain ⟨value, admitted, ⟨whole, integral, small⟩, rfl⟩ := Visit.parsed_of_stored integers ran
    exact ⟨value, whole, admitted, integral, small, integral.look_parse started,
      Primitive.equal_parse_left.trans integral.equal_self⟩
  · have unchanged : substitute world.heap visit.field.declaration given = given := by
      simp only [substitute, free.allowed]
    exact Visit.sortsIntegers integers (compiled.checks_of_unconstrained sample asked free) unchanged
      sought

end Validation

/-! Stocks that are counted in pieces. -/

namespace Stocks

def stockClass : RecordClass := ⟨1, "Stock", [1, 0]⟩

def pieces : Field :=
  ⟨"pieces", { sample := .int 0 }, .int 0, .primitive .fallback, [.integer]⟩

def schema : Schema where
  recordClass := stockClass
  body := [("pieces", pieces.declaration)]
  declarations := [("pieces", pieces.declaration)]
  ancestry := [1, 0]
  config := none
  compiled := some (.of [pieces] 0 (.ref 0))

def world : World where
  heap := ⟨#[.record stockClass [("pieces", .int 0)]]⟩
  schemas := #[.root, schema]
  configs := #[{ catalogue := 0 }]
  catalogues := #[Catalogue.builtIn]
  default := 0

def visit (given : Value) : Validation.Visit := ⟨1, "", [(.text "pieces", given)], pieces, []⟩

/-- Three as a float. -/
def three : Value := .float (.finite false 6755399441055744 (-51))

theorem integral_three : world.heap.Integral three 3 :=
  .float rfl (Number.Dyadic.toInt_eq_some_iff.mp (by decide))

theorem unconstrained : pieces.declaration.Unconstrained := ⟨rfl, rfl, rfl, rfl, rfl⟩

end Stocks

theorem int_fields_store_safe_integers_stocks :
    (∃ stored, ((Stocks.visit Stocks.three).guarded Stocks.world (Stocks.world.config 0)).Yields []
      (.stored stored) [] ∧ (Stocks.world.heap.look stored = .int 3 ∨
        Stocks.world.heap.look stored = .bigInteger 3)) ∧
    ((Stocks.visit (.float (.infinite false))).guarded Stocks.world (Stocks.world.config 0)).Yields []
      (.failed (.integer "pieces" "value of inf is not a safe integer")) [] := by
  have law (given : Value) := @Validation.int_fields_store_safe_integers Stocks.world
    (Stocks.world.config 0) Stocks.world.heap (Stocks.visit given) 0 ⟨[], [], rfl⟩ rfl nofun
  constructor
  · exact ((law Stocks.three).unconstrained Stocks.unconstrained
      (Validation.sought_of_inputOf rfl)).stores Stocks.integral_three (by decide)
  · refine ((law (.float (.infinite false))).unconstrained Stocks.unconstrained
      (Validation.sought_of_inputOf rfl)).fails rfl ?_ rfl
    rintro ⟨whole, ⟨⟨⟩⟩ | ⟨⟨⟩⟩ | ⟨⟨⟩⟩, _⟩

end Exemplar
