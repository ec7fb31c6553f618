import Exemplar.Proofs.Agreement
import Exemplar.Proofs.Origins
import Mathlib.Data.Multiset.MapFold
import Mathlib.Algebra.Order.Floor.Semifield
import Mathlib.Data.Rat.Floor

/-!
Membership among allowed values. Values that agree have one hash, so looking among hashed members, a
look at the frozen set in place of a set, and going through all members one by one come to the same.
The fallback is decided on by going through the members, the check by whichever way they allow.
-/

namespace Exemplar

namespace Number.Dyadic

theorem natAbs_truncate (value : Dyadic) : value.truncate.natAbs = ⌊|value.toRat|⌋₊ := by
  by_cases raised : 0 ≤ value.exponent
  · obtain ⟨power, shift⟩ := Int.eq_ofNat_of_zero_le raised
    have whole : value.toRat = ((value.numerator * 2 ^ power : Int) : ℚ) := by
      rw [toRat, shift]
      push_cast
      simp
    have kept : value.truncate = value.numerator * 2 ^ power := by simp [truncate, shift]
    rw [whole, kept, ← Int.cast_abs, Int.abs_eq_natAbs, Int.cast_natCast, Nat.floor_natCast]
  · obtain ⟨power, shift⟩ := Int.eq_ofNat_of_zero_le (show 0 ≤ -value.exponent by omega)
    have lowered : value.exponent = -(power : Int) := by omega
    have positive : (0 : ℚ) < (2 ^ power)⁻¹ := by positivity
    have part : |value.toRat| = (value.numerator.natAbs : ℚ) / ((2 ^ power : Nat) : ℚ) := by
      rw [toRat, lowered, abs_mul, zpow_neg, zpow_natCast, abs_of_pos positive, div_eq_mul_inv,
        Nat.cast_natAbs, Int.cast_abs]
      push_cast
      rfl
    rw [part, Nat.floor_div_eq_div]
    simp only [truncate, raised, if_false, shift, Int.natAbs_tdiv]
    simp
    rfl

end Number.Dyadic

def Spot.hash : Spot → Nat
  | .bottom => 1
  | .top => 2
  | .at value => 2 * ⌊|value|⌋₊ % Nat.pow 2 61

def Atom.hash : Atom → Nat
  | .null => 5
  | .number value => value.hash
  | .text value => Value.hashText value
  | .bytes value => Heap.mixHashes (value.map UInt8.toNat)
  | .date value => Heap.mixHashes [value.year, value.month, value.day]
  | .mode value => Value.hashText value.name
  | .pattern source _ => Value.hashText source
  | .failure value =>
      Heap.mixHashes [Value.hashText value.path, Value.hashText value.code,
        Value.hashText value.message]

theorem Quantity.hash_eq {quantity : Quantity} {spot : Spot} (known : quantity.spot? = some spot) :
    Value.hashQuantity quantity = spot.hash := by
  cases quantity with
  | nan => cases known
  | point place =>
      cases known
      cases place with
      | bottom | top => rfl
      | «at» value =>
          simp only [Value.hashQuantity, Value.hashPoint, Number.Dyadic.natAbs_truncate]
          rfl

namespace Heap

variable {heap : Heap} {fuel more levels hash other : Nat} {value left right : Value}
  {content : Atom} {values lefts rights : List Value} {hashes others : List Nat}

theorem hashTo_of_atom (single : (heap.look value).atom? = some content) :
    heap.hashTo (fuel + 1) value = .ok content.hash := by
  rw [hashTo]
  generalize heap.look value = shape at single
  cases counts : shape.quantity? with
  | none =>
      cases shape <;> simp only [Value.atom?, Value.quantity?, Option.bind_none, Option.map_none,
        reduceCtorEq, Option.some.injEq] at single counts <;> subst single <;> rfl
  | some quantity =>
      rw [Value.atom?_of_quantity counts] at single
      obtain ⟨spot, known, rfl⟩ := Option.map_eq_some_iff.mp single
      have same : Except.ok (Value.hashQuantity quantity) = (.ok spot.hash : Except Fault Nat) :=
        congrArg _ (Quantity.hash_eq known)
      cases shape <;> simp only [Value.quantity?, reduceCtorEq, Option.some.injEq] at counts <;>
        subst counts <;> exact same

theorem hashAll_iff {test : Value → Except Fault Nat} : hashAll test values = .ok hashes ↔
    List.Forall₂ (fun value hash => test value = .ok hash) values hashes := by
  induction values generalizing hashes with
  | nil => cases hashes <;> simp [hashAll]
  | cons first rest ih =>
      simp only [hashAll, List.forall₂_cons_left_iff, ← ih]
      cases test first with
      | error fault => simp
      | ok hash =>
          cases hashAll test rest <;> simp [eq_comm]

theorem eq_of_hashes {relation : Value → Value → Prop} {one two : Value → Except Fault Nat}
    (each : List.Forall₂ relation lefts rights)
    (same : ∀ first second hash other, relation first second → one first = .ok hash →
      two second = .ok other → hash = other)
    (first : List.Forall₂ (fun value hash => one value = .ok hash) lefts hashes)
    (second : List.Forall₂ (fun value hash => two value = .ok hash) rights others) :
    hashes = others := by
  induction each generalizing hashes others with
  | nil =>
      cases first
      cases second
      rfl
  | cons related _ ih =>
      cases first with
      | cons here later =>
          cases second with
          | cons there further =>
              rw [same _ _ _ _ related here there, ih later further]

theorem eq_map_of_hashes {test : Value → Except Fault Nat}
    (each : List.Forall₂ (fun value hash => test value = .ok hash) values hashes) :
    hashes = values.map fun value => (test value).toOption.getD 0 := by
  induction each with
  | nil => rfl
  | cons found _ ih => rw [List.map_cons, found, ← ih]; rfl

theorem perm_of_hashes {relation : Value → Value → Prop} {one two : Value → Except Fault Nat}
    (each : Multiset.Rel relation lefts rights)
    (same : ∀ first second hash other, relation first second → one first = .ok hash →
      two second = .ok other → hash = other)
    (first : List.Forall₂ (fun value hash => one value = .ok hash) lefts hashes)
    (second : List.Forall₂ (fun value hash => two value = .ok hash) rights others) :
    hashes.Perm others := by
  rw [eq_map_of_hashes first, eq_map_of_hashes second, ← Multiset.coe_eq_coe, ← Multiset.map_coe,
    ← Multiset.map_coe, ← Multiset.rel_eq, Multiset.rel_map]
  refine each.mono fun left known right present related => ?_
  obtain ⟨hash, _, here⟩ := exists_of_forall₂ first known
  obtain ⟨other, _, there⟩ := exists_of_forall₂ second present
  rw [here, there]
  exact same _ _ _ _ related here there

theorem hashTo_of_row {kind : Row} (shape : heap.look value = kind.made values)
    (hashed : heap.hashTo (fuel + 1) value = .ok hash) :
    kind = .tuple ∧ ∃ hashes, hash = mixHashes hashes ∧
      List.Forall₂ (fun value hash => heap.hashTo fuel value = .ok hash) values hashes := by
  rw [hashTo, shape] at hashed
  cases kind with
  | list | deque => cases hashed
  | tuple =>
      simp only [Row.made] at hashed
      cases all : hashAll (heap.hashTo fuel) values with
      | error fault => simp [all] at hashed
      | ok hashes =>
          simp only [all, Except.ok.injEq] at hashed
          exact ⟨rfl, hashes, hashed.symm, hashAll_iff.mp all⟩

theorem hashTo_of_members (shape : (heap.look value).layout? = some (.members values))
    (hashed : heap.hashTo (fuel + 1) value = .ok hash) :
    ∃ hashes, hash = hashes.foldl (· + ·) 0 ∧
      List.Forall₂ (fun value hash => heap.hashTo fuel value = .ok hash) values hashes := by
  rw [hashTo] at hashed
  rcases Value.eq_of_members shape with set | frozen
  · rw [set] at hashed
    cases hashed
  · simp only [frozen] at hashed
    cases all : hashAll (heap.hashTo fuel) values with
    | error fault => simp [all] at hashed
    | ok hashes =>
        simp only [all, Except.ok.injEq] at hashed
        exact ⟨hashes, hashed.symm, hashAll_iff.mp all⟩

/-- Values that agree have the same hash, if they have one. -/
theorem AgreeTo.hash_eq (agrees : heap.AgreeTo levels left right)
    (one : heap.hashTo fuel left = .ok hash) (two : heap.hashTo more right = .ok other) :
    hash = other := by
  induction levels generalizing left right fuel more hash other with
  | zero => exact agrees.elim
  | succ levels ih =>
      obtain ⟨first, second, here, there, agrees⟩ := agrees
      cases fuel with
      | zero => cases one
      | succ fuel =>
          cases more with
          | zero => cases two
          | succ more =>
              cases agrees with
              | atom =>
                  rw [hashTo_of_atom (Value.atom?_of_layout here)] at one
                  rw [hashTo_of_atom (Value.atom?_of_layout there)] at two
                  exact (Except.ok.inj one).symm.trans (Except.ok.inj two)
              | row each =>
                  obtain ⟨_, hashes, rfl, firsts⟩ := hashTo_of_row (Value.eq_of_row here) one
                  obtain ⟨_, others, rfl, seconds⟩ := hashTo_of_row (Value.eq_of_row there) two
                  rw [eq_of_hashes each (fun _ _ _ _ => ih) firsts seconds]
              | members each =>
                  obtain ⟨hashes, rfl, firsts⟩ := hashTo_of_members here one
                  obtain ⟨others, rfl, seconds⟩ := hashTo_of_members there two
                  exact (perm_of_hashes each (fun _ _ _ _ => ih) firsts seconds).foldl_eq 0
              | entries _ =>
                  rw [hashTo, Value.eq_of_entries here] at one
                  cases one
              | fields _ =>
                  obtain ⟨_, _, shape⟩ := Value.eq_of_fields here
                  rw [hashTo, shape] at one
                  cases one

theorem Agree.hash_eq (agrees : heap.Agree left right) (one : heap.hash? left = .ok hash)
    (two : heap.hash? right = .ok other) : hash = other := by
  obtain ⟨levels, agrees⟩ := agrees
  exact agrees.hash_eq one two

/-- What agrees with a set agrees with the frozen set of its members. -/
theorem Agree.frozen (agrees : heap.Agree left right) (shape : heap.look left = .set values) :
    heap.Agree (.frozenSet values) right := by
  obtain ⟨levels, agrees⟩ := agrees
  cases levels with
  | zero => exact agrees.elim
  | succ levels =>
      obtain ⟨one, other, here, there, agrees⟩ := agrees
      rw [shape] at here
      exact ⟨levels + 1, one, other, here, there, agrees⟩

end Heap

namespace Choices

variable {heap earlier : Heap} {value : Value} {choices : List Value} {hashes : List Nat} {hash : Nat}

/-- The value is equal to one of the choices. -/
def Listed (heap : Heap) (choices : List Value) (value : Value) : Prop :=
  ∃ choice ∈ choices, heap.equal value choice = true

/-- The choices that had a hash have it still. A hash is for life. -/
def Kept (earlier heap : Heap) (choices : List Value) : Prop :=
  ∀ choice ∈ choices, ∀ hash, earlier.hash? choice = .ok hash → heap.hash? choice = .ok hash

/-- Going through the choices one by one finds what is equal to one of them. -/
theorem isAmong_iff (proper : heap.Proper value) (sound : ∀ choice ∈ choices, heap.Sound choice) :
    heap.isAmong value choices = true ↔ Listed heap choices value := by
  simp only [Heap.isAmong, Listed, List.any_eq_true]
  refine exists_congr fun choice => and_congr_right fun member => ?_
  rw [proper.equal_comm (sound choice member)]

/-- Choices are found by their hash if those that are equal to the value have the hash it is looked
for by. -/
theorem findHashed_iff
    (kept : List.Forall₂ (fun choice hash => heap.hash? choice = .ok hash) choices hashes)
    (same : ∀ choice ∈ choices, ∀ other, heap.hash? choice = .ok other →
      heap.equal value choice = true → other = hash) :
    findHashed heap (hashes.zip choices) hash value = true ↔ Listed heap choices value := by
  simp only [findHashed, Listed, List.any_eq_true, Bool.and_eq_true, beq_iff_eq]
  induction kept with
  | nil => simp
  | @cons choice known choices hashes hashed _ ih =>
      rw [List.forall_mem_cons] at same
      simp only [List.zip_cons_cons, List.exists_mem_cons_iff, ih same.2]
      refine or_congr_left ⟨And.right, fun equal => ⟨same.1 known hashed equal, equal⟩⟩

/-- The check of allowed values lets a value pass if it is equal to one of them, whichever way it is
looked for. -/
theorem holds_iff (proper : heap.Proper value) (sound : ∀ choice ∈ choices, heap.Sound choice)
    (kept : Kept earlier heap choices) :
    (ofList earlier choices).holds heap value = true ↔ Listed heap choices value := by
  have among := isAmong_iff proper sound
  unfold ofList
  split
  next hashes all =>
    have hashed : List.Forall₂ (fun choice hash => heap.hash? choice = .ok hash) choices hashes :=
      forall₂_imp_mem (Heap.hashAll_iff.mp all) fun choice member hash _ => kept choice member hash
    have members : (hashes.zip choices).map (·.2) = choices :=
      List.map_snd_zip (by rw [hashed.length_eq])
    simp only [holds, members]
    split
    next hash own =>
      refine findHashed_iff hashed fun choice member other found equal => ?_
      exact (((proper.equal_iff (sound choice member)).1.mp equal).hash_eq own found).symm
    next =>
      split
      next elements shape =>
        split
        next hash own =>
          refine findHashed_iff hashed fun choice member other found equal => ?_
          have agrees := ((proper.equal_iff (sound choice member)).1.mp equal).frozen shape
          exact (agrees.hash_eq own found).symm
        next => exact among
      next => exact among
  next => exact among

theorem holds_eq_false (proper : heap.Proper value)
    (sound : ∀ choice ∈ choices, heap.Sound choice)
    (kept : Kept earlier heap choices) (unlisted : ¬ Listed heap choices value) :
    (ofList earlier choices).holds heap value = false :=
  Bool.eq_false_iff.mpr (unlisted ∘ (holds_iff proper sound kept).mp)

end Choices

namespace Check

variable {check : Check} {name listing : String} {heap earlier : Heap} {value : Value}
  {choices : List Value} {fail : Failure} {before after : Trace}

theorem allowed_passes_iff {members : Choices} :
    ((Check.allowed members listing).apply name heap value).Yields before .pass after ↔
      after = before ∧ members.holds heap value = true := by
  simp only [apply]
  split <;> simp_all

theorem allowed_fails_iff {members : Choices} :
    ((Check.allowed members listing).apply name heap value).Yields before (.failure fail) after ↔
      after = before ∧ members.holds heap value = false ∧ ∃ shown, heap.display value = .ok shown ∧
        fail = .allowed name s!"invalid value: {shown} - valid values are: {listing}" := by
  simp only [apply]
  split
  next held => simp [held]
  next missed =>
    simp only [Run.yields_bind, Run.yields_lift, Run.yields_pure, Verdict.failure.injEq]
    constructor
    · rintro ⟨shown, _, ⟨found, rfl⟩, rfl, rfl⟩
      exact ⟨rfl, by simpa using missed, shown, found, rfl⟩
    · rintro ⟨rfl, _, shown, found, rfl⟩
      exact ⟨shown, _, ⟨found, rfl⟩, rfl, rfl⟩

/-- Whether the check is one of allowed values. -/
def IsAllowed (check : Check) : Prop := ∃ members listing, check = .allowed members listing

/-- A failure of the code for values that are not allowed is the word of that check, or of a hook. -/
theorem allowed_or_custom
    (failed : (check.apply name heap value).Yields before (.failure fail) after)
    (code : fail.code = "ALLOWED") :
    check.IsAllowed ∨ ∃ hook, check = .custom hook := by
  rcases code_of_failure failed with own | ⟨hook, same, _⟩
  · rw [code] at own
    cases check with
    | allowed members listing => exact .inl ⟨members, listing, rfl⟩
    | bySize side | byValue side => cases side <;> simp [code?, Side.code] at own
    | matching | integer | noRegex | custom => simp [code?] at own
  · exact .inr ⟨hook, same⟩

theorem not_allowed_of_mem_regexChecks {expression : Option Value} {checks : List Check}
    (compiled : regexChecks heap expression = .ok checks) (member : check ∈ checks) :
    ¬ check.IsAllowed := by
  cases expression with
  | none =>
      cases compiled
      cases member
  | some written =>
      rcases regexChecks_some compiled with ⟨pattern, rfl, _⟩ | ⟨rfl, _, _⟩ <;>
        simp [List.mem_singleton.mp member, IsAllowed]

end Check

namespace Field

variable {field : Field} {earlier heap : Heap} {catalogue : Catalogue} {choices : List Value}
  {value : Value} {rest : List Check} {fail : Failure} {before after : Trace}

theorem bounds_neither {check : Check} (member : check ∈ field.bounds heap) :
    ¬ check.IsAllowed ∧ ∀ hook, check ≠ .custom hook := by
  rcases List.mem_append.mp member with member | member <;>
    (obtain ⟨limit, _, ⟨_, rfl⟩ | ⟨_, rfl⟩⟩ := Check.mem_boundChecks.mp member <;>
      simp [Check.IsAllowed])

/-- The check of allowed values comes right after the bounds, and once only. -/
theorem CompiledBy.checks_eq (compiled : field.CompiledBy catalogue earlier)
    (declared : field.declaration.allowed = some choices) :
    ∃ texts rest, Heap.textAll earlier.display choices = .ok texts ∧
      field.checks = field.bounds earlier ++
        .allowed (.ofList earlier choices) (",".intercalate texts) :: rest ∧
      ∀ check ∈ rest, ¬ check.IsAllowed := by
  obtain ⟨allowed, regex, listed, expression, order⟩ := Check.compile_eq compiled.checked
  rw [declared, Check.allowedChecks_some] at listed
  obtain ⟨texts, shown, rfl⟩ := listed
  refine ⟨texts, regex ++ Check.integerChecks earlier field.sample field.declaration.integer ++
    Check.customChecks field.declaration.custom, shown, ?_, ?_⟩
  · rw [order, bounds]
    simp
  · intro check member
    rw [List.append_assoc, List.mem_append, List.mem_append] at member
    rcases member with pattern | whole | own
    · exact Check.not_allowed_of_mem_regexChecks expression pattern
    · simp [(Check.of_mem_integerChecks whole).1, Check.IsAllowed]
    · obtain ⟨hook, _, rfl⟩ := Check.mem_customChecks.mp own
      simp [Check.IsAllowed]

/-- A failure with the code for values that are not allowed is made by the check of these, once the
bounds have let the value pass, or by the hook, once all other checks have. -/
theorem failure_of_code {members : Choices} {listing : String}
    (order : field.checks = field.bounds earlier ++ .allowed members listing :: rest)
    (only : ∀ check ∈ rest, ¬ check.IsAllowed)
    (failed : (field.firstFailure heap value).Yields before (.failure fail) after)
    (code : fail.code = "ALLOWED") :
    (firstFailureOf field.name heap value (field.bounds earlier)).Yields before .pass after ∧
        ((Check.allowed members listing).apply field.name heap value).Yields after (.failure fail)
          after ∨
      ∃ hook done later first, field.checks = done ++ .custom hook :: later ∧
        (firstFailureOf field.name heap value done).Yields before .pass first ∧
        (hook.check heap value).Yields first (.failure fail) after := by
  obtain ⟨done, check, later, first, whole, passed, applied⟩ := failed_at_of_firstFailureOf failed
  rcases Check.allowed_or_custom applied code with listed | ⟨hook, rfl⟩
  · obtain ⟨rfl, rfl, rfl⟩ := (List.append_cons_inj_of_notMem
      (fun member => (bounds_neither member).1 listed) (fun member => only _ member listed)).mp
        (order.symm.trans whole)
    obtain ⟨rfl, _⟩ := Check.allowed_fails_iff.mp applied
    exact .inl ⟨passed, applied⟩
  · exact .inr ⟨hook, done, later, first, whole, passed, applied⟩

end Field

namespace Validation

/-- The value fits the field and lies within its bounds. -/
def ComesThrough (world : World) (earlier : Heap) (field : Field) (value : Value)
    (found checked : Trace) : Prop :=
  ∃ fit fitted, (field.type.fit world.heap value field.sample).Yields found fit fitted ∧
    (∀ reason, fit ≠ .refused reason) ∧
    (Field.firstFailureOf field.name world.heap value (field.bounds earlier)).Yields fitted .pass
      checked

/-- The value that reaches a field comes through to the check of allowed values, or the fallback in
its place does, and that check makes a failure of it. -/
inductive TurnedAway (world : World) (config : Configuration) (earlier : Heap) (choices : List Value)
    (listing : String) (visit : Visit) : Failure → Trace → Prop
  | intro {given found checked fail} :
      Sought world config visit.field visit.path visit.entries visit.before (.inr given) found →
      ComesThrough world earlier visit.field
        (substitute world.heap visit.field.declaration given) found checked →
      ((Check.allowed (.ofList earlier choices) listing).apply visit.field.name world.heap
        (substitute world.heap visit.field.declaration given)).Yields checked (.failure fail)
          checked →
      TurnedAway world config earlier choices listing visit (fail.movedTo visit.path) checked

/-- The application makes a failure of the field: its check does, or a type of its own does that the
value, or an element which the value hinges on, is parsed by. -/
inductive ByApplication (world : World) (config : Configuration) (visit : Visit) :
    Failure → Trace → Prop
  | check {fail after} :
      Answered world config visit.field visit.path visit.entries visit.before fail after →
      ByApplication world config visit fail after
  | type {value middle last own fail after} :
      Admitted world config visit.field visit.path visit.entries visit.before value .toParse
        middle →
      Parsing.Hinges world config (visit.parsed value middle) last → last.type = .custom own →
      (own.parse config world.heap last.path last.sample last.value).Yields last.before (.error fail)
        after →
      ByApplication world config visit fail after

/-- How the two ways of telling whether a value is allowed agree for a field. -/
structure MembershipAgrees (world : World) (config : Configuration) (earlier : Heap)
    (choices : List Value) (listing : String) (visit : Visit) : Prop where
  /-- The check of allowed values comes right after the bounds, and once. -/
  order : ∃ rest,
    visit.field.checks =
      visit.field.bounds earlier ++ .allowed (.ofList earlier choices) listing :: rest ∧
    ∀ check ∈ rest, ¬ check.IsAllowed
  /-- The check lets an ordinary value pass if it is equal to an allowed one. -/
  passes {name value before after} : world.heap.Proper value →
    (((Check.allowed (.ofList earlier choices) listing).apply name world.heap value).Yields before
      .pass after ↔ after = before ∧ Choices.Listed world.heap choices value)
  /-- Where it turns the field away, the field fails, and so does what comes to the field through
  parts that the policy does not leave out. -/
  fails {fail after} : TurnedAway world config earlier choices listing visit fail after →
    fail.code = "ALLOWED" ∧ (visit.guarded world config).Yields visit.before (.failed fail) after ∧
      ∀ call, Visits world config (Carries config) call visit →
        (call.run world config).Yields call.before (.error fail) after
  /-- Failures of the code that the field makes come from the check, or from the application. -/
  made {fail after} : visit.Makes world config fail after → fail.code = "ALLOWED" →
    TurnedAway world config earlier choices listing visit fail after ∨
      ByApplication world config visit fail after
  /-- With a fallback, the check turns the field away where neither the value that reaches it nor the
  fallback is equal to an allowed one, and the fallback comes through to the check. -/
  turnedAway_iff {fallback given found} : visit.field.declaration.fallback = some fallback →
    world.heap.Proper fallback → world.heap.Proper given →
    Sought world config visit.field visit.path visit.entries visit.before (.inr given) found →
    ∀ fail checked, TurnedAway world config earlier choices listing visit fail checked ↔
      ¬ Choices.Listed world.heap choices given ∧ ¬ Choices.Listed world.heap choices fallback ∧
        ComesThrough world earlier visit.field fallback found checked ∧
        ∃ shown, world.heap.display fallback = .ok shown ∧
          fail = .allowed visit.path s!"invalid value: {shown} - valid values are: {listing}"
  /-- Where the fallback then has no text to show, the field breaks down instead. -/
  breaks {fallback given found checked fault} :
    visit.field.declaration.fallback = some fallback →
    world.heap.Proper fallback → world.heap.Proper given →
    Sought world config visit.field visit.path visit.entries visit.before (.inr given) found →
    ¬ Choices.Listed world.heap choices given → ¬ Choices.Listed world.heap choices fallback →
    ComesThrough world earlier visit.field fallback found checked →
    world.heap.display fallback = .error fault →
    (visit.guarded world config).Yields visit.before (.failed (.unknown visit.path fault.summary))
      (checked ++ [visit.line])
  /-- With a fallback that is equal to an allowed value the check never turns the field away: a run
  that fails by the code does so by another field, or by the application. -/
  never {fallback given found call fail after} : visit.field.declaration.fallback = some fallback →
    world.heap.Proper fallback → world.heap.Proper given →
    Sought world config visit.field visit.path visit.entries visit.before (.inr given) found →
    Choices.Listed world.heap choices fallback →
    (call.run world config).Yields call.before (.error fail) after → fail.code = "ALLOWED" →
    ¬ TurnedAway world config earlier choices listing visit fail after ∧
      ∃ last, Visits world config (Carries config) call last ∧ last.Makes world config fail after ∧
        (last = visit → ByApplication world config visit fail after)

variable {world : World} {config : Configuration} {earlier : Heap} {catalogue : Catalogue}
  {choices : List Value} {texts : List String} {listing : String} {visit : Visit}
  {given fallback : Value} {found checked after : Trace} {fail : Failure} {rest : List Check}

/-- From the bounds on, the checks of the field go on with that of allowed values. -/
theorem firstFailure_of_bounds {value : Value} {fitted : Trace}
    (order : visit.field.checks =
      visit.field.bounds earlier ++ .allowed (.ofList earlier choices) listing :: rest)
    (bounded : (Field.firstFailureOf visit.field.name world.heap value
      (visit.field.bounds earlier)).Yields fitted .pass checked) :
    (visit.field.firstFailure world.heap value).run.run fitted =
      (Field.firstFailureOf visit.field.name world.heap value
        (.allowed (.ofList earlier choices) listing :: rest)).run.run checked := by
  rw [Field.firstFailure, order, Field.firstFailureOf_append]
  exact bounded.bind

theorem TurnedAway.guarded
    (order : visit.field.checks =
      visit.field.bounds earlier ++ .allowed (.ofList earlier choices) listing :: rest)
    (turned : TurnedAway world config earlier choices listing visit fail after) :
    (visit.guarded world config).Yields visit.before (.failed fail) after := by
  cases turned with
  | intro sought comes applied =>
      obtain ⟨fit, fitted, compared, fits, bounded⟩ := comes
      have failed : (visit.field.firstFailure world.heap _).Yields fitted (.failure _) after :=
        (firstFailure_of_bounds order bounded).trans (applied.bind.trans rfl)
      exact Visit.guarded_of_failure sought compared fits failed

/-- A message that cannot be made breaks the field down. -/
theorem ComesThrough.breaks {fault : Fault}
    (order : visit.field.checks =
      visit.field.bounds earlier ++ .allowed (.ofList earlier choices) listing :: rest)
    (sought : Sought world config visit.field visit.path visit.entries visit.before (.inr given)
      found)
    (comes : ComesThrough world earlier visit.field
      (substitute world.heap visit.field.declaration given) found checked)
    (missed : (Choices.ofList earlier choices).holds world.heap
      (substitute world.heap visit.field.declaration given) = false)
    (unshown : world.heap.display (substitute world.heap visit.field.declaration given) =
      .error fault) :
    (visit.guarded world config).Yields visit.before
      (.failed (.unknown visit.path fault.summary))
      (checked ++ [.logged .debug s!"Unexpected error validating '{visit.path}'"]) := by
  obtain ⟨fit, fitted, compared, fits, bounded⟩ := comes
  have applied : ((Check.allowed (.ofList earlier choices) listing).apply visit.field.name world.heap
      (substitute world.heap visit.field.declaration given)).Breaks checked fault checked := by
    simp only [Check.apply, missed, Bool.false_eq_true, if_false]
    exact (Run.breaks_of_error unshown).bind
  have broke : (visit.field.firstFailure world.heap _).Breaks fitted fault checked :=
    (firstFailure_of_bounds order bounded).trans applied.bind
  exact Visit.guarded_of_fault sought compared fits broke rfl

/-- A failure of the code that the field makes is the word of the check of allowed values, or of the
application. -/
theorem turnedAway_of_makes (compiled : visit.field.CompiledBy catalogue earlier)
    (order : visit.field.checks =
      visit.field.bounds earlier ++ .allowed (.ofList earlier choices) listing :: rest)
    (only : ∀ check ∈ rest, ¬ check.IsAllowed) (makes : visit.Makes world config fail after)
    (code : fail.code = "ALLOWED") :
    TurnedAway world config earlier choices listing visit fail after ∨
      ByApplication world config visit fail after := by
  cases makes with
  | missing sought =>
      cases sought
      simp [Failure.missing] at code
  | refused _ _ => simp [Failure.type] at code
  | rejected sought compared fits rejected =>
      rcases Field.failure_of_code order only rejected code with
        ⟨bounded, applied⟩ | ⟨hook, done, later, first, whole, passed, answered⟩
      · exact .inl (.intro sought ⟨_, _, compared, fits, bounded⟩ applied)
      · have member : .custom hook ∈ visit.field.checks := by simp [whole]
        have declared := Check.custom_of_compile compiled.checked member
        exact .inr (.check (.intro sought compared fits declared whole passed answered))
  | unparsed admitted _ hinges fails =>
      cases fails with
      | bigInteger told =>
          obtain ⟨_, rfl⟩ := BigInteger.failure_of_parse told
          simp [Failure.bigInteger] at code
      | custom answered => exact .inr (.type admitted hinges rfl answered)
      | misfit _ _ _ => simp [Failure.type] at code
  | broken _ _ => simp [Failure.unknown] at code

/-- A run that fails by the code, but not by that check, fails by another field or by the
application. -/
theorem makes_of_run {call : Call} (compiled : visit.field.CompiledBy catalogue earlier)
    (order : visit.field.checks =
      visit.field.bounds earlier ++ .allowed (.ofList earlier choices) listing :: rest)
    (only : ∀ check ∈ rest, ¬ check.IsAllowed)
    (otherwise : ¬ TurnedAway world config earlier choices listing visit fail after)
    (failed : (call.run world config).Yields call.before (.error fail) after)
    (code : fail.code = "ALLOWED") :
    ∃ last, Visits world config (Carries config) call last ∧ last.Makes world config fail after ∧
      (last = visit → ByApplication world config visit fail after) := by
  rcases Call.fails_iff.mp failed with refused | ⟨last, visits, makes⟩
  · cases refused
    simp [Failure.type] at code
  · refine ⟨last, visits, makes, ?_⟩
    rintro rfl
    exact (turnedAway_of_makes compiled order only makes code).resolve_left otherwise

section Fallback

variable (declared : visit.field.declaration.allowed = some choices)
  (fallen : visit.field.declaration.fallback = some fallback)
  (sound : ∀ choice ∈ choices, world.heap.Sound choice)

include declared fallen sound

theorem substitute_of_listed (proper : world.heap.Proper given)
    (listed : Choices.Listed world.heap choices given) :
    substitute world.heap visit.field.declaration given = given := by
  simp only [substitute, declared, fallen, (Choices.isAmong_iff proper sound).mpr listed, if_true]

theorem substitute_of_not_listed (proper : world.heap.Proper given)
    (unlisted : ¬ Choices.Listed world.heap choices given) :
    substitute world.heap visit.field.declaration given = fallback := by
  have missed : world.heap.isAmong given choices = false :=
    Bool.eq_false_iff.mpr (unlisted ∘ (Choices.isAmong_iff proper sound).mp)
  simp only [substitute, declared, fallen, missed, Bool.false_eq_true, if_false]

/-- The check turns a field away where neither the value that reaches it nor the fallback is equal to
an allowed one, the fallback comes through to it, and can be shown. -/
theorem turnedAway_iff
    (kept : Choices.Kept earlier world.heap choices)
    (ordinary : world.heap.Proper fallback)
    (sought : Sought world config visit.field visit.path visit.entries visit.before (.inr given)
      found)
    (proper : world.heap.Proper given) :
    TurnedAway world config earlier choices listing visit fail checked ↔
      ¬ Choices.Listed world.heap choices given ∧ ¬ Choices.Listed world.heap choices fallback ∧
        ComesThrough world earlier visit.field fallback found checked ∧
        ∃ shown, world.heap.display fallback = .ok shown ∧
          fail = .allowed visit.path s!"invalid value: {shown} - valid values are: {listing}" := by
  constructor
  · rintro ⟨reached, comes, applied⟩
    obtain ⟨same, rfl⟩ := (inputOf_of_sought reached).unique (inputOf_of_sought sought)
    obtain rfl := Sum.inr.inj same
    obtain ⟨_, missed, shown, found, rfl⟩ := Check.allowed_fails_iff.mp applied
    have unlisted : ¬ Choices.Listed world.heap choices _ := fun listed => by
      rw [substitute_of_listed declared fallen sound proper listed,
        (Choices.holds_iff proper sound kept).mpr listed] at missed
      cases missed
    rw [substitute_of_not_listed declared fallen sound proper unlisted] at comes missed found
    refine ⟨unlisted, fun listed => ?_, comes, shown, found, rfl⟩
    rw [(Choices.holds_iff ordinary sound kept).mpr listed] at missed
    cases missed
  · rintro ⟨unlisted, strange, comes, shown, displayed, rfl⟩
    have replaced := substitute_of_not_listed declared fallen sound proper unlisted
    have missed := Choices.holds_eq_false ordinary sound kept strange
    change TurnedAway world config earlier choices listing visit
      ((Failure.allowed visit.field.name _).movedTo visit.path) checked
    refine .intro sought (by rwa [replaced]) ?_
    rw [replaced]
    exact Check.allowed_fails_iff.mpr ⟨rfl, missed, shown, displayed, rfl⟩

end Fallback

end Validation

/-! Paints that are red or green. The fallback of their colour is neither. -/

namespace Paints

def paintClass : RecordClass := ⟨1, "Paint", [1, 0]⟩

def heap : Heap := ⟨#[.record paintClass [("colour", .text "")]]⟩

def colours : List Value := [.text "red", .text "green"]

def colour : Field :=
  ⟨"colour", { sample := .text "", allowed := some colours, fallback := some (.text "blue") },
    .text "", .primitive .fallback,
    [.allowed (.ofList heap colours) (",".intercalate ["red", "green"])]⟩

def schema : Schema where
  recordClass := paintClass
  body := [("colour", colour.declaration)]
  declarations := [("colour", colour.declaration)]
  ancestry := [1, 0]
  config := none
  compiled := some (.of [colour] 0 (.ref 0))

def world : World where
  heap := heap
  schemas := #[.root, schema]
  configs := #[{ catalogue := 0 }]
  catalogues := #[Catalogue.builtIn]
  default := 0

def yellow : Value := .mapping [(.text "colour", .text "yellow")]

def visit : Validation.Visit := ⟨1, "", [(.text "colour", .text "yellow")], colour, []⟩

theorem sound (text : String) : heap.Sound (.text text) := by
  intro inner layout held laid
  cases held with
  | self =>
      cases laid
      trivial
  | inside member _ => cases member

theorem proper (text : String) : heap.Proper (.text text) where
  finite := ⟨1, fun _ member => by cases member⟩
  sound := sound text
  numbers inner held := by
    cases held with
    | self => nofun
    | inside member _ => cases member
  resolved inner held := by
    cases held with
    | self => rfl
    | inside member _ => cases member

theorem sound_colours : ∀ choice ∈ colours, heap.Sound choice := by
  simp only [colours, List.forall_mem_cons, List.not_mem_nil, false_implies, implies_true, and_true]
  exact ⟨sound "red", sound "green"⟩

theorem not_listed {text : String} (missed : heap.isAmong (.text text) colours = false) :
    ¬ Choices.Listed heap colours (.text text) := by
  rwa [← Choices.isAmong_iff (proper text) sound_colours, Bool.not_eq_true]

theorem reaches : Validation.Call.Reaches world (world.config 0) ⟨1, schema, "", yellow, []⟩ visit :=
  .intro rfl rfl (List.nil_append [colour]).symm rfl

theorem sought : Validation.Sought world (world.config 0) colour visit.path visit.entries []
    (.inr (.text "yellow")) [] :=
  Validation.sought_of_inputOf rfl

end Paints

end Exemplar
