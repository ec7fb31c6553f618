import Exemplar.Proofs.Checks
import Exemplar.Proofs.Containment
import Exemplar.Proofs.Numbers
import Exemplar.Proofs.Texts
import Exemplar.Proofs.Catalogues
import Mathlib.Data.List.DropRight
import Mathlib.Data.Nat.Digits.Defs

/-!
Big integers in all forms of input. Whether a text is a numeral is decided on the text without the
white space at its ends, but it is read with it, and there reading is stricter: the four information
separators are stripped as white space and are no white space around a numeral. All else agrees: what
is read are exactly the numerals, so an integer fares the same however it is given.
-/

namespace Exemplar

namespace Number

/-- One of the four information separators, which texts are stripped of and numerals are not. -/
def isSeparator (character : Char) : Bool :=
  0x1C ≤ character.toNat && character.toNat ≤ 0x1F

def digitValue (character : Char) : Nat := (Text.digit? character).getD 0

/-- Decimal digits of any script, after a minus where the integer is negative. -/
inductive Numeral : List Char → Int → Prop
  | plain {digits} : digits ≠ [] → (∀ digit ∈ digits, Text.isDigit digit = true) →
      Numeral digits (valueOf (digits.map digitValue))
  | minus {digits} : digits ≠ [] → (∀ digit ∈ digits, Text.isDigit digit = true) →
      Numeral ('-' :: digits) (-(valueOf (digits.map digitValue) : Int))

theorem isNumeralBlank_eq (character : Char) :
    isNumeralBlank character = (Text.isBlank character && !isSeparator character) := rfl

variable {character : Char} {characters digits : List Char} {text : String} {whole : Int}

theorem digit?_of_isDigit (digit : Text.isDigit character = true) :
    Text.digit? character = some (digitValue character) := by
  obtain ⟨value, found⟩ := Option.isSome_iff_exists.mp digit
  rw [digitValue, found]
  rfl

theorem digitValue_lt (digit : Text.isDigit character = true) : digitValue character < 10 := by
  have found := digit?_of_isDigit digit
  obtain ⟨start, run, value⟩ := Option.map_eq_some_iff.mp found
  have within := List.find?_some run
  simp only [Bool.and_eq_true, decide_eq_true_eq] at within
  omega

theorem valueOf_eq_ofDigits (values : List Nat) :
    valueOf values = Nat.ofDigits 10 values.reverse := by
  rw [Nat.ofDigits_eq_foldr, valueOf, List.foldl_eq_foldr_reverse]
  congr 1
  funext digit value
  simp only [Nat.cast_id]
  omega

theorem valueOf_lt (all : ∀ digit ∈ digits, Text.isDigit digit = true) :
    valueOf (digits.map digitValue) < 10 ^ digits.length := by
  have small := Nat.ofDigits_lt_base_pow_length (b := 10) (l := (digits.map digitValue).reverse)
    (by decide) fun value member => by
      obtain ⟨digit, known, rfl⟩ := List.mem_map.mp (List.mem_reverse.mp member)
      exact digitValue_lt (all digit known)
  rwa [← valueOf_eq_ofDigits, List.length_reverse, List.length_map] at small

theorem Numeral.writable (numeral : Numeral characters whole)
    (few : characters.countP Text.isDigit ≤ digitLimit) : Writable whole := by
  have bounded {digits : List Char} {limit : Nat}
      (all : ∀ digit ∈ digits, Text.isDigit digit = true) (few : digits.length ≤ limit) :
      valueOf (digits.map digitValue) < Nat.pow 10 limit :=
    Nat.lt_of_lt_of_le (valueOf_lt all) (Nat.pow_le_pow_right (by decide) few)
  unfold Writable
  cases numeral with
  | plain _ all =>
      rw [List.countP_eq_length.mpr all] at few
      exact bounded all few
  | minus _ all =>
      rw [List.countP_cons_of_neg (by decide), List.countP_eq_length.mpr all] at few
      rw [Int.natAbs_neg]
      exact bounded all few

theorem isPlainNumeral_iff : isPlainNumeral text = true ↔ ∃ whole, Numeral text.toList whole := by
  unfold isPlainNumeral
  simp only [Bool.and_eq_true, Bool.not_eq_true', List.isEmpty_eq_false_iff, List.all_eq_true]
  constructor
  · generalize text.toList = characters
    split
    next => exact fun ⟨present, all⟩ => ⟨_, .minus present all⟩
    next => exact fun ⟨present, all⟩ => ⟨_, .plain present all⟩
  · rintro ⟨whole, numeral⟩
    generalize text.toList = characters at numeral
    cases numeral with
    | plain present all =>
        split
        next rest => exact absurd (all '-' List.mem_cons_self) (by decide)
        next => exact ⟨present, all⟩
    | minus present all => exact ⟨present, all⟩

theorem digitValues_of_digits (all : ∀ digit ∈ digits, Text.isDigit digit = true) :
    digitValues digits = some (digits.map digitValue) := by
  induction digits with
  | nil => rfl
  | cons first rest ih =>
      obtain ⟨head, tail⟩ := List.forall_mem_cons.mp all
      cases rest with
      | nil => simp [digitValues, digit?_of_isDigit head]
      | cons next rest =>
          have joined : next ≠ '_' := by
            rintro rfl
            exact absurd (tail '_' List.mem_cons_self) (by decide)
          simp only [digitValues, digit?_of_isDigit head, joined, if_false, ih tail, List.map_cons,
            Option.map_some]

theorem digitValues_eq_none (foreign : Text.digit? character = none) (unlike : character ≠ '_')
    (member : character ∈ characters) : digitValues characters = none := by
  fun_induction digitValues characters with
  | case1 => cases member
  | case2 only => simp [← List.mem_singleton.mp member, foreign]
  | case3 | case4 | case5 => rfl
  | case6 first digit found following tail joined ih =>
      rcases List.mem_cons.mp member with rfl | later
      · cases foreign.symm.trans found
      · rw [ih ((List.mem_cons.mp later).resolve_left unlike), Option.map_none]
  | case7 first next rest digit found joined ih =>
      rcases List.mem_cons.mp member with rfl | later
      · cases foreign.symm.trans found
      · rw [ih later, Option.map_none]

/-- The numerals of integers are read, up to the limit of digits. -/
theorem readSigned_of_numeral (numeral : Numeral characters whole)
    (few : characters.countP Text.isDigit ≤ digitLimit) : readSigned characters = .ok whole := by
  cases numeral with
  | plain present all =>
      rw [List.countP_eq_length.mpr all] at few
      unfold readSigned
      split
      next negative rest signed =>
        split at signed
        next => exact absurd (all '-' List.mem_cons_self) (by decide)
        next => exact absurd (all '+' List.mem_cons_self) (by decide)
        next =>
          cases signed
          simp [present, digitValues_of_digits all, few]
  | minus present all =>
      rw [List.countP_cons_of_neg (by decide), List.countP_eq_length.mpr all] at few
      simp [readSigned, present, digitValues_of_digits all, few]

theorem digit?_of_isSeparator (separator : isSeparator character = true) :
    Text.digit? character = none := by
  have least : ∀ start ∈ Text.digitZeros, 0x30 ≤ start := by decide
  simp only [isSeparator, Bool.and_eq_true, decide_eq_true_eq] at separator
  rw [Text.digit?, Option.map_eq_none_iff, List.find?_eq_none]
  intro start known
  have above := least start known
  simp only [Bool.and_eq_true, decide_eq_true_eq]
  omega

theorem readSigned_of_separator (separator : isSeparator character = true)
    (member : character ∈ characters) : readSigned characters = .error .malformed := by
  have unlike {other : Char} (plain : isSeparator other = false) : character ≠ other := by
    rintro rfl
    cases separator.symm.trans plain
  have foreign := digit?_of_isSeparator separator
  unfold readSigned
  split
  next negative rest signed =>
    have held : character ∈ rest := by
      split at signed <;> cases signed
      next => exact (List.mem_cons.mp member).resolve_left (unlike (by decide))
      next => exact (List.mem_cons.mp member).resolve_left (unlike (by decide))
      next => exact member
    simp [digitValues_eq_none foreign (unlike (by decide)) held]

/-- The characters between what is taken off the two ends. -/
def trim (taken : Char → Bool) (characters : List Char) : List Char :=
  (characters.dropWhile taken).rdropWhile taken

theorem toList_strip : (Text.strip text).toList = trim Text.isBlank text.toList :=
  String.toList_ofList

theorem readInteger_eq : readInteger text = readSigned (trim isNumeralBlank text.toList) := rfl

theorem trim_sublist {taken : Char → Bool} : (trim taken characters).Sublist characters :=
  ((List.rdropWhile_prefix taken _).sublist).trans (List.dropWhile_sublist taken)

theorem strip_sublist : (Text.strip text).toList.Sublist text.toList := by
  rw [toList_strip]
  exact trim_sublist

theorem dropWhile_congr {one other : Char → Bool}
    (same : ∀ character ∈ characters, one character = other character) :
    characters.dropWhile one = characters.dropWhile other := by
  induction characters with
  | nil => rfl
  | cons first rest ih =>
      obtain ⟨head, tail⟩ := List.forall_mem_cons.mp same
      simp only [List.dropWhile_cons, head, ih tail]

theorem trim_congr {one other : Char → Bool}
    (same : ∀ character ∈ characters, one character = other character) :
    trim one characters = trim other characters := by
  simp only [trim, List.rdropWhile, dropWhile_congr same]
  refine congrArg _ (dropWhile_congr fun character member => same character ?_)
  exact (List.dropWhile_sublist other).subset (List.mem_reverse.mp member)

theorem mem_dropWhile {taken : Char → Bool} (kept : taken character = false)
    (member : character ∈ characters) : character ∈ characters.dropWhile taken := by
  rw [← List.takeWhile_append_dropWhile (p := taken) (l := characters), List.mem_append] at member
  refine member.resolve_left fun early => ?_
  cases kept.symm.trans (List.mem_takeWhile_imp early)

theorem mem_trim {taken : Char → Bool} (kept : taken character = false)
    (member : character ∈ characters) : character ∈ trim taken characters :=
  List.mem_reverse.mpr (mem_dropWhile kept (List.mem_reverse.mpr (mem_dropWhile kept member)))

/-- A text that is a numeral once it is stripped is read as one, unless a separator was stripped. -/
theorem readInteger_of_numeral (numeral : Numeral (Text.strip text).toList whole)
    (few : text.toList.countP Text.isDigit ≤ digitLimit) :
    readInteger text = if text.toList.any isSeparator then .error .malformed else .ok whole := by
  rw [readInteger_eq]
  split
  next separated =>
    obtain ⟨character, member, separator⟩ := List.any_eq_true.mp separated
    have kept : isNumeralBlank character = false := by
      rw [isNumeralBlank_eq, separator, Bool.not_true, Bool.and_false]
    exact readSigned_of_separator separator (mem_trim kept member)
  next joined =>
    have same : ∀ character ∈ text.toList, isNumeralBlank character = Text.isBlank character := by
      intro character member
      have plain : isSeparator character = false := by
        simpa using fun separator => joined (List.any_eq_true.mpr ⟨character, member, separator⟩)
      rw [isNumeralBlank_eq, plain, Bool.not_false, Bool.and_true]
    rw [trim_congr same, ← toList_strip]
    exact readSigned_of_numeral numeral (strip_sublist.countP_le.trans few)

end Number

/-- The text is a numeral of the integer, white space at its two ends aside. -/
def Text.IsNumeralOf (text : String) (whole : Int) : Prop :=
  Number.Numeral (Text.strip text).toList whole

def Text.holdsSeparator (text : String) : Bool := text.toList.any Number.isSeparator

namespace BigInteger

/-- The forms in which input gives an integer. -/
inductive Means : Value → Int → Prop
  | int {whole} : Number.Writable whole → Means (.int whole) whole
  | bigInteger {whole} : Number.Writable whole → Means (.bigInteger whole) whole
  | text {text whole} : Text.IsNumeralOf text whole →
      text.toList.countP Text.isDigit ≤ Number.digitLimit → Text.holdsSeparator text = false →
      Means (.text text) whole

variable {heap : Heap} {value : Value} {text path name : String} {whole : Int}

/-- What is raised for a text that is no integer. -/
def unreadable (text : String) : Fault :=
  .malformedInteger (String.ofList ((Text.quoted text).toList.take 200))

theorem integerOfText_of_numeral (numeral : Text.IsNumeralOf text whole)
    (few : text.toList.countP Text.isDigit ≤ Number.digitLimit) :
    Heap.integerOfText text =
      if Text.holdsSeparator text then .error (unreadable text) else .ok whole := by
  rw [Heap.integerOfText, Number.readInteger_of_numeral numeral few, Text.holdsSeparator]
  cases text.toList.any Number.isSeparator <;> rfl

theorem isPlainNumeral_strip_iff :
    Number.isPlainNumeral (Text.strip text) = true ↔ ∃ whole, Text.IsNumeralOf text whole :=
  Number.isPlainNumeral_iff

theorem compared_text : compared heap (.text text) =
    if Number.isPlainNumeral (Text.strip text) then (Heap.integerOfText text).map .int
    else .ok .null := rfl

theorem parse_text : parse heap path (.text text) =
    if Number.isPlainNumeral (Text.strip text) then
      (Heap.integerOfText text).map fun number => .ok (.bigInteger number)
    else .ok (.error (.bigInteger path s!"invalid big integer: {text}")) := rfl

/-- The texts that cannot be compared yet are the ones that parsing rejects. -/
theorem compared_null_iff : compared heap (.text text) = .ok .null ↔
    ∃ fail, parse heap path (.text text) = .ok (.error fail) := by
  rw [compared_text, parse_text]
  split
  next => cases Heap.integerOfText text <;> simp [Except.map]
  next => simp

theorem writable_of_numeral (numeral : Text.IsNumeralOf text whole)
    (few : text.toList.countP Text.isDigit ≤ Number.digitLimit) : Number.Writable whole :=
  Number.Numeral.writable numeral (Number.strip_sublist.countP_le.trans few)

theorem Means.writable (means : Means value whole) : Number.Writable whole := by
  cases means with
  | int writable | bigInteger writable => exact writable
  | text numeral few _ => exact writable_of_numeral numeral few

theorem Means.compared (means : Means value whole) :
    BigInteger.compared heap value = .ok (.int whole) := by
  cases means with
  | int _ | bigInteger _ => rfl
  | text numeral few joined =>
      rw [compared_text, if_pos (isPlainNumeral_strip_iff.mpr ⟨_, numeral⟩),
        integerOfText_of_numeral numeral few, joined]
      rfl

theorem Means.parse (means : Means value whole) :
    BigInteger.parse heap path value = .ok (.ok (.bigInteger whole)) := by
  cases means with
  | int _ | bigInteger _ => rfl
  | text numeral few joined =>
      rw [parse_text, if_pos (isPlainNumeral_strip_iff.mpr ⟨_, numeral⟩),
        integerOfText_of_numeral numeral few, joined]
      rfl

/-- The bound is an integer with a numeral. -/
def Bounds (limit : Value) (whole : Int) : Prop :=
  (limit = .int whole ∨ limit = .bigInteger whole) ∧ Number.Writable whole

theorem Bounds.counts {limit : Value} (bounds : Bounds limit whole) :
    heap.CountsAs limit whole := by
  rcases bounds with ⟨rfl | rfl, _⟩ <;> rfl

theorem Bounds.display {limit : Value} (bounds : Bounds limit whole) :
    heap.display limit = .ok (toString whole) := by
  obtain ⟨rfl | rfl, writable⟩ := bounds
  · exact Heap.display_int writable
  · exact (show heap.display (.bigInteger whole) = numeral whole from rfl).trans
      (numeral_of_writable writable)

/-- The failure of an integer that is on the wrong side of a bound. -/
def broken (path : String) : Side → Option Int → Int → Option Failure
  | _, none, _ => none
  | .below, some least, whole =>
      if whole < least then
        some (.minimum path s!"value of {whole} < minimum value of {least}")
      else none
  | .above, some most, whole =>
      if most < whole then
        some (.maximum path s!"value of {whole} > maximum value of {most}")
      else none

theorem outOfBounds_below {least : Int} :
    Check.outOfBounds .below path (toString whole) (toString least) "value" =
      .minimum path s!"value of {whole} < minimum value of {least}" := by
  refine congrArg (Failure.minimum path) (String.toList_inj.mp ?_)
  simp [Side.sign, Side.bound, ToString.toString]

theorem outOfBounds_above {most : Int} :
    Check.outOfBounds .above path (toString whole) (toString most) "value" =
      .maximum path s!"value of {whole} > maximum value of {most}" := by
  refine congrArg (Failure.maximum path) (String.toList_inj.mp ?_)
  simp [Side.sign, Side.bound, ToString.toString]

/-- What breaks a bound is what the order of integers puts beyond it. -/
theorem broken_some {side : Side} {limit : Int} :
    broken path side (some limit) whole =
      if side.ask (fun left right => decide (left < right)) whole limit then
        some (Check.outOfBounds side path (toString whole) (toString limit) "value")
      else none := by
  cases side with
  | below => simp only [broken, Side.ask, decide_eq_true_eq, outOfBounds_below]
  | above => simp only [broken, Side.ask, decide_eq_true_eq, outOfBounds_above]

theorem broken_movedTo {side : Side} {bound : Option Int} :
    (broken name side bound whole).map (·.movedTo path) = broken path side bound whole := by
  cases bound with
  | none => cases side <;> rfl
  | some limit =>
      rw [broken_some, broken_some]
      split
      next => cases side <;> rfl
      next => rfl

/-- The failure of the lower bound, or else that of the upper one. -/
def firstBroken (path : String) (least most : Option Int) (whole : Int) : Option Failure :=
  (broken path .below least whole).or (broken path .above most whole)

theorem firstBroken_movedTo {least most : Option Int} :
    (firstBroken name least most whole).map (·.movedTo path) = firstBroken path least most whole := by
  rw [firstBroken, Option.map_or, broken_movedTo, broken_movedTo, firstBroken]

/-- What becomes of an integer: it fails a bound, or is stored. -/
def outcome (path : String) (least most : Option Int) (whole : Int) : FieldOutcome :=
  (firstBroken path least most whole).elim (.stored (.bigInteger whole)) .failed

end BigInteger

/-- The declaration asks for no more than integer bounds. -/
structure Declaration.OnlyBounds (declaration : Declaration) (least most : Option Int) : Prop where
  minimum : Option.Rel BigInteger.Bounds declaration.minimum least
  maximum : Option.Rel BigInteger.Bounds declaration.maximum most
  allowed : declaration.allowed = none
  regex : declaration.regex = none
  integer : declaration.integer = none
  custom : declaration.custom = none

/-- The types that are registered from the start and the one of big integers, in order. -/
structure Catalogue.WithBigIntegers (catalogue : Catalogue) : Prop where
  descending : catalogue.Descending
  registered : .bigInteger ∈ catalogue
  only : ∀ type ∈ catalogue, type ∈ .bigInteger :: Catalogue.builtIn

namespace Catalogue.WithBigIntegers

variable {catalogue : Catalogue} {heap : Heap} {start : Int} {before : Trace}

theorem find_yields (types : catalogue.WithBigIntegers) :
    (find? heap (.bigInteger start) catalogue).Yields before (some .bigInteger) before := by
  obtain ⟨descending, registered, only⟩ := types
  induction catalogue with
  | nil => cases registered
  | cons type rest ih =>
      obtain ⟨beneath, ordered⟩ := List.pairwise_cons.mp descending
      obtain ⟨known, others⟩ := List.forall_mem_cons.mp only
      have later (other : type ≠ .bigInteger) : .bigInteger ∈ rest :=
        (List.mem_cons.mp registered).resolve_left other.symm
      simp only [builtIn, List.mem_cons, List.not_mem_nil, or_false] at known
      rcases known with rfl | rfl | rfl | rfl | rfl
      · rfl
      · exact ih ordered (later nofun) others
      · exact ih ordered (later nofun) others
      · exact ih ordered (later nofun) others
      · exact absurd (beneath _ (later nofun)) (by decide)

end Catalogue.WithBigIntegers

namespace Field

variable {field : Field} {catalogue : Catalogue} {earlier heap : Heap} {start : Int}
  {least most : Option Int}

theorem CompiledBy.type_eq (compiled : field.CompiledBy catalogue earlier)
    (types : catalogue.WithBigIntegers) (sample : field.sample = .bigInteger start) :
    field.type = .bigInteger := by
  obtain ⟨before, after, ran⟩ := compiled
  simp only [Field.compile, Run.yields_bind, Run.yields_lift, Run.yields_pure, Catalogue.typeFor,
    sample] at ran
  obtain ⟨type, _, ⟨found, _, resolved, bound⟩, checks, _, _, made, _⟩ := ran
  have first : (catalogue.resolve earlier (.bigInteger start)).Yields before .bigInteger before :=
    types.find_yields.bind.trans rfl
  obtain rfl := (resolved.unique first).1
  obtain ⟨rfl, _⟩ := Run.yields_pure.mp bound
  exact congrArg Field.type made

theorem CompiledBy.checks_of_onlyBounds (compiled : field.CompiledBy catalogue earlier)
    (sample : field.sample = .bigInteger start)
    (only : field.declaration.OnlyBounds least most) : field.checks = field.bounds earlier := by
  obtain ⟨allowed, regex, listed, expression, order⟩ := Check.compile_eq compiled.checked
  rw [only.allowed] at listed
  rw [only.regex] at expression
  cases listed
  cases expression
  have whole : Check.integerChecks earlier field.sample field.declaration.integer = [] := by
    rw [sample, only.integer]
    rfl
  rw [order, whole, only.custom]
  simp [bounds, Check.customChecks]

end Field

namespace Check

variable {name : String} {earlier heap : Heap} {side : Side} {value : Value} {start whole : Int}
  {bound : Option Value} {limit : Option Int} {fault : Fault} {before : Trace}

/-- The check of a bound on big integers. -/
def bigBounds (earlier : Heap) (start : Int) (side : Side) (bound : Option Value) : List Check :=
  boundChecks earlier (.bigInteger start) ValueType.bigInteger.measure side bound

theorem bigBounds_of_means (bounds : Option.Rel BigInteger.Bounds bound limit)
    (means : BigInteger.Means value whole) :
    (Field.firstFailureOf name heap value (bigBounds earlier start side bound)).Yields before
      ((BigInteger.broken name side limit whole).elim .pass .failure) before := by
  cases bounds with
  | none => rfl
  | @some given limit bounds =>
      have applied : ((Check.byValue side given ValueType.bigInteger.measure.compared).apply name heap
          value).Yields before ((BigInteger.broken name side (some limit) whole).elim .pass .failure)
            before := by
        refine (Run.yields_of_ok means.compared).bind.trans
          ((Run.yields_of_ok (Heap.order_of_counts bounds.counts)).bind.trans ?_)
        cases beyond : side.ask (fun left right => decide (left < right)) whole limit with
        | false =>
            simp only [BigInteger.broken_some, beyond, Bool.false_eq_true, if_false]
            rfl
        | true =>
            simp only [BigInteger.broken_some, beyond, if_true]
            exact (Run.yields_of_ok (Heap.display_int means.writable)).bind.trans
              ((Run.yields_of_ok bounds.display).bind.trans rfl)
      refine applied.bind.trans ?_
      cases BigInteger.broken name side (some limit) whole <;> rfl

theorem bigBounds_of_null (uncompared : BigInteger.compared heap value = .ok .null) :
    (Field.firstFailureOf name heap value (bigBounds earlier start side bound)).Yields before .pass
      before := by
  cases bound with
  | none => rfl
  | some limit =>
      have applied : ((Check.byValue side limit ValueType.bigInteger.measure.compared).apply name heap
          value).Yields before .pass before :=
        (Run.yields_of_ok uncompared).bind.trans rfl
      exact applied.bind.trans rfl

/-- A text that cannot be read is in the way of every bound. -/
theorem bigBounds_of_error (failed : BigInteger.compared heap value = .error fault) :
    (Field.firstFailureOf name heap value (bigBounds earlier start side bound)).Yields before .pass
        before ∨
      (Field.firstFailureOf name heap value (bigBounds earlier start side bound)).Breaks before fault
        before := by
  cases bound with
  | none => exact .inl rfl
  | some limit =>
      have applied : ((Check.byValue side limit ValueType.bigInteger.measure.compared).apply name heap
          value).Breaks before fault before :=
        (Run.breaks_of_error failed).bind
      exact .inr applied.bind

end Check

namespace Validation

variable {world : World} {config : Configuration} {earlier : Heap} {catalogue : Catalogue}
  {visit : Visit} {start whole : Int} {least most : Option Int} {given : Value} {found : Trace}
  {text : String} {fault : Fault}

theorem parseTo_bigInteger_eq {limit : Nat} {path : String} {sample value : Value} :
    parseTo world config limit .bigInteger path sample value =
      (BigInteger.parse world.heap path value : Except Fault Outcome) := by
  cases limit <;> rfl

/-- A field of big integers, with integer bounds at most. -/
structure OfBigIntegers (earlier : Heap) (field : Field) (least most : Option Int) : Prop where
  type : field.type = .bigInteger
  declared : field.declaration.OnlyBounds least most
  checks : ∃ start, field.checks =
    Check.bigBounds earlier start .below field.declaration.minimum ++
      Check.bigBounds earlier start .above field.declaration.maximum

theorem ofBigIntegers_of_compiled {field : Field} (compiled : field.CompiledBy catalogue earlier)
    (types : catalogue.WithBigIntegers) (sample : field.sample = .bigInteger start)
    (only : field.declaration.OnlyBounds least most) : OfBigIntegers earlier field least most where
  type := compiled.type_eq types sample
  declared := only
  checks := by
    refine ⟨start, ?_⟩
    rw [compiled.checks_of_onlyBounds sample only, Field.bounds, compiled.type_eq types sample, sample]
    rfl

namespace OfBigIntegers

variable (big : OfBigIntegers earlier visit.field least most)
  (sought : Sought world config visit.field visit.path visit.entries visit.before (.inr given) found)

include big

theorem substitute_eq : substitute world.heap visit.field.declaration given = given := by
  simp only [substitute, big.declared.allowed]

theorem firstFailure_of_means (means : BigInteger.Means given whole) :
    (visit.field.firstFailure world.heap given).Yields found
      ((BigInteger.firstBroken visit.field.name least most whole).elim .pass .failure) found := by
  obtain ⟨start, checks⟩ := big.checks
  rw [Field.firstFailure, checks, Field.firstFailureOf_append, BigInteger.firstBroken]
  refine (Check.bigBounds_of_means big.declared.minimum means).bind.trans ?_
  cases BigInteger.broken visit.field.name .below least whole with
  | some fail => rfl
  | none => exact Check.bigBounds_of_means big.declared.maximum means

theorem firstFailure_of_null (uncompared : BigInteger.compared world.heap given = .ok .null) :
    (visit.field.firstFailure world.heap given).Yields found .pass found := by
  obtain ⟨start, checks⟩ := big.checks
  rw [Field.firstFailure, checks, Field.firstFailureOf_append]
  exact (Check.bigBounds_of_null uncompared).bind.trans (Check.bigBounds_of_null uncompared)

theorem firstFailure_of_error (failed : BigInteger.compared world.heap given = .error fault) :
    (visit.field.firstFailure world.heap given).Yields found .pass found ∨
      (visit.field.firstFailure world.heap given).Breaks found fault found := by
  obtain ⟨start, checks⟩ := big.checks
  rw [Field.firstFailure, checks, Field.firstFailureOf_append]
  rcases Check.bigBounds_of_error failed with passed | broke
  · rcases Check.bigBounds_of_error failed with later | broke
    · exact .inl (passed.bind.trans later)
    · exact .inr (passed.bind.trans broke)
  · exact .inr broke.bind

theorem fit_yields {fit : Fit} (compared : BigInteger.fit world.heap given = fit) :
    (visit.field.type.fit world.heap (substitute world.heap visit.field.declaration given)
      visit.field.sample).Yields found fit found := by
  rw [big.type, big.substitute_eq, ← compared]
  rfl

include sought

theorem run_eq {fit : Fit} (compared : BigInteger.fit world.heap given = fit)
    (fits : ∀ reason, fit ≠ .refused reason) :
    (visit.settle world config).run.run visit.before =
      (checkField (parseTo world config visit.limit) world config visit.field visit.path given
        fit).run.run found := by
  have same : substitute world.heap visit.field.declaration given = given := big.substitute_eq
  exact same ▸ sought.run_eq (big.fit_yields compared) fits

theorem settle_of_passed (compared : BigInteger.fit world.heap given = .toParse)
    (passed : (visit.field.firstFailure world.heap given).Yields found .pass found) :
    (visit.settle world config).run.run visit.before =
      (parseField (parseTo world config visit.limit) config visit.field visit.path given).run.run
        found := by
  rw [big.run_eq sought compared nofun]
  exact passed.bind.trans rfl

theorem guarded_fails {fail : Failure} {fit : Fit} (compared : BigInteger.fit world.heap given = fit)
    (fits : ∀ reason, fit ≠ .refused reason)
    (failed : (visit.field.firstFailure world.heap given).Yields found (.failure fail) found) :
    (visit.guarded world config).Yields visit.before (.failed (fail.movedTo visit.path)) found := by
  have same : substitute world.heap visit.field.declaration given = given := big.substitute_eq
  exact Visit.guarded_of_failure sought (big.fit_yields compared) fits (same.symm ▸ failed)

theorem guarded_refused {reason : String}
    (compared : BigInteger.fit world.heap given = .refused reason) :
    (visit.guarded world config).Yields visit.before (.failed (.type visit.path reason)) found :=
  Visit.guarded_of_refused sought (big.fit_yields compared)

theorem guarded_parsed {result : Outcome} (compared : BigInteger.fit world.heap given = .toParse)
    (passed : (visit.field.firstFailure world.heap given).Yields found .pass found)
    (parsed : BigInteger.parse world.heap visit.path given = .ok result) :
    (visit.guarded world config).Yields visit.before
      (match result with
        | .ok stored => .stored stored
        | .error fail => .failed fail) found := by
  have read : (parseTo world config visit.limit visit.field.type visit.path visit.field.sample
      given).Yields found result found := by
    rw [big.type, parseTo_bigInteger_eq]
    exact Run.yields_of_ok parsed
  refine guardField_yields.mpr (.inl ((big.settle_of_passed sought compared passed).trans
    (read.bind.trans ?_)))
  cases result with
  | ok stored => rfl
  | error fail =>
      dsimp only
      rw [if_neg fun pardoned => by simp [big.type, isRecordType] at pardoned]
      rfl

theorem guarded_breaks (compared : BigInteger.fit world.heap given = .toParse)
    (uncompared : BigInteger.compared world.heap given = .error fault)
    (unparsed : BigInteger.parse world.heap visit.path given = .error fault) :
    (visit.guarded world config).Yields visit.before (.failed (.unknown visit.path fault.summary))
      (found ++ [.logged .debug s!"Unexpected error validating '{visit.path}'"]) := by
  have broke : (visit.settle world config).Breaks visit.before fault found := by
    have checked : (visit.field.firstFailure world.heap given).Yields found .pass found ∨
        (visit.field.firstFailure world.heap given).Breaks found fault found :=
      big.firstFailure_of_error uncompared
    rcases checked with passed | broke
    · have read : (parseTo world config visit.limit visit.field.type visit.path visit.field.sample
          given).Breaks found fault found := by
        rw [big.type, parseTo_bigInteger_eq]
        exact Run.breaks_of_error unparsed
      exact (big.settle_of_passed sought compared passed).trans read.bind
    · exact (big.run_eq sought compared nofun).trans broke.bind
  exact guardField_yields.mpr (.inr ⟨fault, found, broke, rfl, rfl⟩)

theorem guarded_of_means (means : BigInteger.Means given whole) :
    (visit.guarded world config).Yields visit.before
      (BigInteger.outcome visit.path least most whole) found := by
  have checked : (visit.field.firstFailure world.heap given).Yields found
      ((BigInteger.firstBroken visit.field.name least most whole).elim .pass .failure) found :=
    big.firstFailure_of_means means
  have parsed : BigInteger.parse world.heap visit.path given = .ok (.ok (.bigInteger whole)) :=
    means.parse
  rw [BigInteger.outcome, ← @BigInteger.firstBroken_movedTo visit.path visit.field.name]
  cases told : BigInteger.firstBroken visit.field.name least most whole with
  | some fail =>
      rw [told] at checked
      cases means <;> exact big.guarded_fails sought rfl nofun checked
  | none =>
      rw [told] at checked
      cases means with
      | int _ | text _ _ _ => exact big.guarded_parsed sought rfl checked parsed
      | bigInteger _ =>
          refine guardField_yields.mpr (.inl ((big.run_eq sought rfl nofun).trans ?_))
          exact checked.bind.trans rfl

end OfBigIntegers

/-- A field of big integers takes integers, big integers and numerals alike: it fails the lower bound,
or else the upper one, or stores the big integer. A numeral with an information separator around it is
told apart and then not read, which breaks the field down. All other texts are no big integers,
whatever the bounds, and values of other kinds do not fit. -/
theorem big_integers_alike (compiled : visit.field.CompiledBy catalogue earlier)
    (types : catalogue.WithBigIntegers) (sample : visit.field.sample = .bigInteger start)
    (only : visit.field.declaration.OnlyBounds least most)
    (sought : Sought world config visit.field visit.path visit.entries visit.before (.inr given)
      found) :
    (∀ whole, BigInteger.Means given whole →
      (visit.guarded world config).Yields visit.before
        (BigInteger.outcome visit.path least most whole) found) ∧
    (∀ text whole, Text.IsNumeralOf text whole →
      text.toList.countP Text.isDigit ≤ Number.digitLimit →
        BigInteger.Means (.int whole) whole ∧ BigInteger.Means (.bigInteger whole) whole ∧
        (Text.holdsSeparator text = false → BigInteger.Means (.text text) whole) ∧
        (Text.holdsSeparator text = true → given = .text text →
          (visit.guarded world config).Yields visit.before
            (.failed (.unknown visit.path (BigInteger.unreadable text).summary))
            (found ++ [.logged .debug s!"Unexpected error validating '{visit.path}'"]))) ∧
    (∀ text, (∀ whole, ¬ Text.IsNumeralOf text whole) → given = .text text →
      (visit.guarded world config).Yields visit.before
        (.failed (.bigInteger visit.path s!"invalid big integer: {text}")) found) ∧
    ((∀ whole, world.heap.look given ≠ .int whole) →
      (∀ whole, world.heap.look given ≠ .bigInteger whole) →
      (∀ text, world.heap.look given ≠ .text text) →
        (visit.guarded world config).Yields visit.before
          (.failed (.type visit.path
            s!"expected bigint but got {(world.heap.look given).shapeName}")) found) ∧
    ∀ text path, BigInteger.compared world.heap (.text text) = .ok .null ↔
      ∃ fail, BigInteger.parse world.heap path (.text text) = .ok (.error fail) := by
  have big := ofBigIntegers_of_compiled compiled types sample only
  refine ⟨fun whole means => big.guarded_of_means sought means, fun text whole numeral few => ?_,
    fun text foreign same => ?_, fun notInt notBigInteger notText => ?_,
    fun text path => BigInteger.compared_null_iff⟩
  · have writable := BigInteger.writable_of_numeral numeral few
    refine ⟨.int writable, .bigInteger writable, .text numeral few, fun separated same => ?_⟩
    subst same
    have unread := BigInteger.integerOfText_of_numeral numeral few
    have told := BigInteger.isPlainNumeral_strip_iff.mpr ⟨whole, numeral⟩
    rw [separated, if_pos rfl] at unread
    refine big.guarded_breaks sought rfl ?_ ?_
    · rw [BigInteger.compared_text, if_pos told, unread]
      rfl
    · rw [BigInteger.parse_text, if_pos told, unread]
      rfl
  · subst same
    have untold : ¬ Number.isPlainNumeral (Text.strip text) = true := fun told =>
      (BigInteger.isPlainNumeral_strip_iff.mp told).elim foreign
    have uncompared : BigInteger.compared world.heap (.text text) = .ok .null := by
      rw [BigInteger.compared_text, if_neg untold]
    have rejected : BigInteger.parse world.heap visit.path (.text text) =
        .ok (.error (.bigInteger visit.path s!"invalid big integer: {text}")) := by
      rw [BigInteger.parse_text, if_neg untold]
    exact big.guarded_parsed sought rfl (big.firstFailure_of_null uncompared) rejected
  · refine big.guarded_refused sought ?_
    unfold BigInteger.fit
    split
    next whole shape => exact absurd shape (notBigInteger whole)
    next whole shape => exact absurd shape (notInt whole)
    next text shape => exact absurd shape (notText text)
    next => rfl

end Validation

/-! Balances in cents, which are never below zero. -/

namespace Balances

def balanceClass : RecordClass := ⟨1, "Balance", [1, 0]⟩

def types : Catalogue := Catalogue.insert .bigInteger Catalogue.builtIn

def cents : Field :=
  ⟨"cents", { sample := .bigInteger 0, minimum := some (.int 0) }, .bigInteger 0, .bigInteger,
    [.byValue .below (.int 0) ValueType.bigInteger.measure.compared]⟩

def schema : Schema where
  recordClass := balanceClass
  body := [("cents", cents.declaration)]
  declarations := [("cents", cents.declaration)]
  ancestry := [1, 0]
  config := none
  compiled := some (.of [cents] 0 (.ref 0))

def world : World where
  heap := ⟨#[.record balanceClass [("cents", .bigInteger 0)]]⟩
  schemas := #[.root, schema]
  configs := #[{ catalogue := 0 }]
  catalogues := #[types]
  default := 0

def holding (given : Value) : Value := .mapping [(.text "cents", given)]

def visit (given : Value) : Validation.Visit := ⟨1, "", [(.text "cents", given)], cents, []⟩

theorem withBigIntegers : types.WithBigIntegers where
  descending := Catalogue.descending_builtIn.insert (by decide)
  registered := (Catalogue.insert_perm _ _).mem_iff.mpr List.mem_cons_self
  only _ member := (Catalogue.insert_perm _ _).mem_iff.mp member

theorem onlyBounds : cents.declaration.OnlyBounds (some 0) none where
  minimum := .some ⟨.inl rfl, Number.writable_zero⟩
  maximum := .none
  allowed := rfl
  regex := rfl
  integer := rfl
  custom := rfl

/-- Five, with an information separator before it. -/
def separated : String := "\u001c5"

theorem isNumeralOf_five {text : String} (stripped : (Text.strip text).toList = ['5']) :
    Text.IsNumeralOf text 5 := by
  have five : Number.valueOf (['5'].map Number.digitValue) = 5 := rfl
  have numeral : Number.Numeral ['5'] (Number.valueOf (['5'].map Number.digitValue)) :=
    .plain nofun (List.forall_mem_singleton.mpr rfl)
  rw [five] at numeral
  rw [Text.IsNumeralOf, stripped]
  exact numeral

theorem sought (text : String) : Validation.Sought world (world.config 0) cents "cents"
    (visit (.text text)).entries [] (.inr (.text text)) [] :=
  Validation.sought_of_inputOf rfl

end Balances

theorem big_integers_alike_balances :
    ((Balances.visit (.text " 5")).guarded Balances.world (Balances.world.config 0)).Yields []
      (.stored (.bigInteger 5)) [] := by
  have numeral : Text.IsNumeralOf " 5" 5 := Balances.isNumeralOf_five rfl
  obtain ⟨stored, numerals, _⟩ := @Validation.big_integers_alike Balances.world
    (Balances.world.config 0) Balances.world.heap Balances.types (Balances.visit (.text " 5")) 0
    (some 0) none (.text " 5") [] ⟨[], [], rfl⟩ Balances.withBigIntegers rfl Balances.onlyBounds
    (Balances.sought " 5")
  exact stored 5 ((numerals " 5" 5 numeral (by decide)).2.2.1 (by decide))

/-- The separated numeral is one of five, and breaks down where five is stored. -/
theorem separated_numeral_breaks :
    Text.IsNumeralOf Balances.separated 5 ∧
      (Balances.world.validateAt (Balances.world.config 0) Balances.schema ""
        (Balances.holding (.int 5))).Yields []
          (.ok (.record Balances.balanceClass [("cents", .bigInteger 5)])) [] ∧
      (Balances.world.validateAt (Balances.world.config 0) Balances.schema ""
        (Balances.holding (.text Balances.separated))).Yields []
          (.error (.unknown "cents"
            "invalid literal for int() with base 10: '\\x1c5'"))
          [.logged .debug "Unexpected error validating 'cents'"] :=
  ⟨Balances.isNumeralOf_five rfl, rfl, rfl⟩

end Exemplar
