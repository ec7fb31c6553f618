import Exemplar.Proofs.Breakdowns

/-!
Where faults in the processing of a field come from: the key that input is looked up under, the
default that stands in for missing input, the comparison with the sample, the checks, parsing, and
the report on an object that is left out.
-/

namespace Exemplar

namespace Validation

variable {parse : Parse} {world : World} {config : Configuration} {before after : Trace}

/-- What can break down while a field is processed, with all that went before it. -/
inductive FieldRaises [Fault.Telling] (world : World) (config : Configuration) (limit : Nat)
    (field : Field) (path : String) (entries : List (Value × Value)) (before : Trace) :
    Fault → Trace → Prop
  | rename {raised last} : (config.keys.keyOf field.name).Breaks before raised last →
      FieldRaises world config limit field path entries before raised last
  | standIn {key middle raised last} : (config.keys.keyOf field.name).Yields before key middle →
      entryUnder key entries = .null → field.declaration.mode = .defaulted →
      (field.type.standIn world.heap field.sample).Breaks middle raised last →
      FieldRaises world config limit field path entries before raised last
  | fit {given found raised last} :
      Sought world config field path entries before (.inr given) found →
      (field.type.fit world.heap (substitute world.heap field.declaration given)
        field.sample).Breaks found raised last →
      FieldRaises world config limit field path entries before raised last
  | check {given found fit fitted raised last} :
      Sought world config field path entries before (.inr given) found →
      (field.type.fit world.heap (substitute world.heap field.declaration given)
        field.sample).Yields found fit fitted → (∀ reason, fit ≠ .refused reason) →
      (field.firstFailure world.heap (substitute world.heap field.declaration given)).Breaks
        fitted raised last →
      FieldRaises world config limit field path entries before raised last
  | verdict {given found fit fitted answer last} :
      Sought world config field path entries before (.inr given) found →
      (field.type.fit world.heap (substitute world.heap field.declaration given)
        field.sample).Yields found fit fitted → (∀ reason, fit ≠ .refused reason) →
      (field.firstFailure world.heap (substitute world.heap field.declaration given)).Yields
        fitted (.other answer) last →
      FieldRaises world config limit field path entries before
        (.noAttribute (world.heap.qualifiedName answer) "with_path") last
  | parse {value middle raised last} :
      Admitted world config field path entries before value .toParse middle →
      ParseRaises world config limit field.type path field.sample value middle raised last →
      FieldRaises world config limit field path entries before raised last
  | report {value middle fail read raised last} :
      Admitted world config field path entries before value .toParse middle →
      (parseTo world config limit field.type path field.sample value).Yields middle (.error fail)
        read →
      Pardons config field →
      (config.sink.report s!"skipping nested object {fail.path} - {fail.message}").Breaks read
        raised last →
      FieldRaises world config limit field path entries before raised last

variable {field : Field} {path : String} {entries : List (Value × Value)} {limit : Nat}
  {fault : Fault}

theorem inputOf_of_absent {key : String} {middle : Trace}
    (named : (config.keys.keyOf field.name).Yields before key middle)
    (absent : entryUnder key entries = .null) :
    (inputOf world config field path entries).run.run before =
      (withoutInput world field path).run.run middle := by
  rw [inputOf_eq, named.bind, absent, fromEntry_null]

theorem inputOf_of_sought {result : FieldOutcome ⊕ Value}
    (sought : Sought world config field path entries before result after) :
    (inputOf world config field path entries).Yields before result after := by
  cases sought with
  | omitted named absent mode | missing named absent mode =>
      rw [Run.Yields, inputOf_of_absent named absent, withoutInput, mode]
      rfl
  | standIn named absent mode stood =>
      rw [Run.Yields, inputOf_of_absent named absent, withoutInput, mode]
      exact stood.bind
  | given named present =>
      rw [Run.Yields, inputOf_eq, named.bind, fromEntry_of_ne_null present]
      rfl

/-- The search for a value breaks down where the key is made or the default is. -/
theorem raises_of_inputOf [Fault.Telling]
    (broke : (inputOf world config field path entries).Breaks before fault after) :
    FieldRaises world config limit field path entries before fault after := by
  simp only [inputOf_eq, Run.breaks_bind] at broke
  rcases broke with broke | ⟨key, middle, named, broke⟩
  · exact .rename broke
  by_cases present : entryUnder key entries = .null
  · rw [present, fromEntry_null] at broke
    cases mode : field.declaration.mode with
    | optional | required => simp [withoutInput, mode] at broke
    | defaulted =>
        simp only [withoutInput, mode, Run.breaks_bind, Run.breaks_pure, and_false, exists_false,
          or_false] at broke
        exact .standIn named present mode broke
  · simp [fromEntry_of_ne_null present] at broke

theorem locate_breaks {heap : Heap} {verdict : Verdict} :
    (Field.locate heap path verdict).Breaks before fault after ↔ ∃ answer,
      verdict = .other answer ∧ fault = .noAttribute (heap.qualifiedName answer) "with_path" ∧
        after = before := by
  cases verdict <;> simp [Field.locate]

/-- What fits goes on to the checks. -/
theorem Sought.run_eq {given : Value} {fit : Fit} {found fitted : Trace}
    (sought : Sought world config field path entries before (.inr given) found)
    (compared : (field.type.fit world.heap (substitute world.heap field.declaration given)
      field.sample).Yields found fit fitted)
    (fits : ∀ reason, fit ≠ .refused reason) :
    (settleField parse world config field path entries).run.run before =
      (checkField parse world config field path
        (substitute world.heap field.declaration given) fit).run.run fitted := by
  rw [settleField_eq]
  refine (inputOf_of_sought sought).bind.trans (compared.bind.trans ?_)
  cases fit with
  | refused reason => exact absurd rfl (fits reason)
  | settled | toParse => rfl

/-- From where a value is let in, a field does what is to be done with the value. -/
theorem Admitted.run_eq {value : Value} {middle : Trace}
    (admitted : Admitted world config field path entries before value .toParse middle) :
    (settleField parse world config field path entries).run.run before =
      (parseField parse config field path value).run.run middle := by
  obtain ⟨sought, compared, passed⟩ := admitted
  have passes : (Field.locate world.heap path .pass).Yields middle none middle :=
    Run.yields_pure.mpr ⟨rfl, rfl⟩
  rw [sought.run_eq compared (by simp)]
  exact passed.bind.trans passes.bind

theorem parseField_breaks {value : Value} :
    (parseField parse config field path value).Breaks before fault after ↔
      (parse field.type path field.sample value).Breaks before fault after ∨
      ∃ fail read, (parse field.type path field.sample value).Yields before (.error fail) read ∧
        Pardons config field ∧
        (config.sink.report s!"skipping nested object {fail.path} - {fail.message}").Breaks read
          fault after := by
  constructor
  · intro broke
    simp only [parseField, Run.breaks_bind] at broke
    rcases broke with broke | ⟨result, read, parsed, broke⟩
    · exact .inl broke
    · cases result with
      | ok value => simp at broke
      | error fail =>
          dsimp only at broke
          split at broke
          next pardoned =>
            simp only [Run.breaks_bind, Run.breaks_pure, and_false, exists_false, or_false]
              at broke
            exact .inr ⟨fail, read, parsed, pardoned, broke⟩
          next => simp at broke
  · intro either
    rcases either with broke | ⟨fail, read, parsed, pardoned, broke⟩
    · exact broke.bind
    · unfold Pardons at pardoned
      refine parsed.bind.trans ?_
      dsimp only
      rw [if_pos pardoned]
      exact broke.bind

theorem raises_of_checkField [Fault.Telling] {given : Value} {fit : Fit} {found fitted : Trace}
    (sought : Sought world config field path entries before (.inr given) found)
    (compared : (field.type.fit world.heap (substitute world.heap field.declaration given)
      field.sample).Yields found fit fitted)
    (fits : ∀ reason, fit ≠ .refused reason)
    (broke : (checkField (parseTo world config limit) world config field path
      (substitute world.heap field.declaration given) fit).Breaks fitted fault after) :
    FieldRaises world config limit field path entries before fault after := by
  simp only [checkField, Run.breaks_bind, locate_breaks, locate_yields] at broke
  rcases broke with broke | ⟨verdict, decided, passed, broke⟩
  · exact .check sought compared fits broke
  rcases broke with ⟨answer, rfl, rfl, rfl⟩ | ⟨located, _, ⟨rfl, placed⟩, broke⟩
  · exact .verdict sought compared fits passed
  rcases placed with ⟨rfl, rfl⟩ | ⟨fail, rfl, rfl⟩
  · have admitted := Admitted.intro sought compared passed
    cases fit with
    | refused reason => exact absurd rfl (fits reason)
    | settled => simp at broke
    | toParse =>
        rcases parseField_breaks.mp broke with inside | ⟨fail, read, parsed, pardons, reported⟩
        · exact .parse admitted (parseTo_breaks.mp inside)
        · exact .report admitted parsed pardons reported
  · simp at broke

theorem raises_of_settleField [Fault.Telling]
    (broke : (settleField (parseTo world config limit) world config field path entries).Breaks
      before fault after) :
    FieldRaises world config limit field path entries before fault after := by
  rw [settleField_eq] at broke
  rcases Run.breaks_bind.mp broke with broke | ⟨input, found, looked, broke⟩
  · exact raises_of_inputOf broke
  have sought := sought_of_inputOf looked
  cases input with
  | inl outcome => simp at broke
  | inr given =>
      rcases Run.breaks_bind.mp broke with broke | ⟨fit, fitted, compared, broke⟩
      · exact .fit sought broke
      cases fit with
      | refused reason => simp at broke
      | settled | toParse => exact raises_of_checkField sought compared (by simp) broke

/-- Faults leave the processing of a field where one of the operations on the way raises, and
nowhere else. -/
theorem settleField_breaks [Fault.Telling] :
    (settleField (parseTo world config limit) world config field path entries).Breaks before fault
      after ↔ FieldRaises world config limit field path entries before fault after := by
  refine ⟨raises_of_settleField, ?_⟩
  intro raises
  cases raises with
  | rename broke =>
      have searched : (inputOf world config field path entries).Breaks before fault after :=
        broke.bind
      exact searched.bind
  | standIn named absent mode broke =>
      have searched : (inputOf world config field path entries).Breaks before fault after := by
        rw [Run.Breaks, inputOf_of_absent named absent, withoutInput, mode]
        exact broke.bind
      exact searched.bind
  | fit sought broke =>
      have found := inputOf_of_sought sought
      exact found.bind.trans broke.bind
  | check sought compared fits broke =>
      rw [Run.Breaks, sought.run_eq compared fits]
      exact broke.bind
  | @verdict _ _ _ _ answer _ sought compared fits answered =>
      have misplaced : (Field.locate world.heap path (.other answer)).Breaks after
          (.noAttribute (world.heap.qualifiedName answer) "with_path") after :=
        locate_breaks.mpr ⟨answer, rfl, rfl, rfl⟩
      rw [Run.Breaks, sought.run_eq compared fits]
      exact answered.bind.trans misplaced.bind
  | parse admitted raises =>
      have broke := parseTo_breaks.mpr raises
      rw [Run.Breaks, admitted.run_eq]
      exact parseField_breaks.mpr (.inl broke)
  | report admitted parsed pardons broke =>
      rw [Run.Breaks, admitted.run_eq]
      exact parseField_breaks.mpr (.inr ⟨_, _, parsed, pardons, broke⟩)

end Validation

end Exemplar
