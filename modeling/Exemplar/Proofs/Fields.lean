import Exemplar.Proofs.Runs
import Exemplar.Validation

/-!
What can become of a field. Each relation below lists the ways in which one part of validation ends
without breaking down, with the computations that lead there; everything that is proved about fields
goes through these lists and never through the definitions.
-/

namespace Exemplar

namespace Validation

/-- What the input holds under a key, null where it holds nothing. -/
def entryUnder (key : String) (entries : List (Value × Value)) : Value :=
  (Heap.named? key entries).getD .null

variable {parse : Parse} {world : World} {config : Configuration} {field : Field} {path : String}
  {entries : List (Value × Value)} {before after : Trace}

theorem substitute_cases (heap : Heap) (declaration : Declaration) (value : Value) :
    substitute heap declaration value = value ∨
      declaration.fallback = some (substitute heap declaration value) := by
  unfold substitute
  split
  next choices fallback _ given =>
    split
    next => exact .inl rfl
    next => exact .inr given
  next => exact .inl rfl

/-- How the value of a field is found: in the input, or by the mode of the field where the input has
none. -/
inductive Sought (world : World) (config : Configuration) (field : Field) (path : String)
    (entries : List (Value × Value)) (before : Trace) : FieldOutcome ⊕ Value → Trace → Prop
  | omitted {key after} : (config.keys.keyOf field.name).Yields before key after →
      entryUnder key entries = .null → field.declaration.mode = .optional →
      Sought world config field path entries before (.inl .omitted) after
  | missing {key after} : (config.keys.keyOf field.name).Yields before key after →
      entryUnder key entries = .null → field.declaration.mode = .required →
      Sought world config field path entries before (.inl (.failed (.missing path))) after
  | standIn {key middle value after} : (config.keys.keyOf field.name).Yields before key middle →
      entryUnder key entries = .null → field.declaration.mode = .defaulted →
      (field.type.standIn world.heap field.sample).Yields middle value after →
      Sought world config field path entries before (.inr value) after
  | given {key after} : (config.keys.keyOf field.name).Yields before key after →
      entryUnder key entries ≠ .null →
      Sought world config field path entries before (.inr (entryUnder key entries)) after

/-- What stands in for input that is not there. -/
def withoutInput (world : World) (field : Field) (path : String) : Run (FieldOutcome ⊕ Value) :=
  match field.declaration.mode with
  | .optional => return .inl .omitted
  | .required => return .inl (.failed (.missing path))
  | .defaulted => return .inr (← field.type.standIn world.heap field.sample)

def fromEntry (world : World) (field : Field) (path : String) (entry : Value) :
    Run (FieldOutcome ⊕ Value) :=
  match entry with
  | .null => withoutInput world field path
  | value => return .inr value

theorem inputOf_eq :
    inputOf world config field path entries =
      (config.keys.keyOf field.name >>= fun key =>
        fromEntry world field path (entryUnder key entries)) := rfl

@[simp] theorem fromEntry_null : fromEntry world field path .null = withoutInput world field path :=
  rfl

theorem fromEntry_of_ne_null {entry : Value} (present : entry ≠ .null) :
    fromEntry world field path entry = pure (.inr entry) := by
  unfold fromEntry
  split
  next => exact absurd rfl present
  next => rfl

theorem sought_of_inputOf {result : FieldOutcome ⊕ Value}
    (ran : (inputOf world config field path entries).Yields before result after) :
    Sought world config field path entries before result after := by
  simp only [inputOf_eq, Run.yields_bind] at ran
  obtain ⟨key, middle, named, rest⟩ := ran
  by_cases present : entryUnder key entries = .null
  · rw [present, fromEntry_null] at rest
    cases mode : field.declaration.mode with
    | optional =>
        simp only [withoutInput, mode, Run.yields_pure] at rest
        obtain ⟨rfl, rfl⟩ := rest
        exact .omitted named present mode
    | required =>
        simp only [withoutInput, mode, Run.yields_pure] at rest
        obtain ⟨rfl, rfl⟩ := rest
        exact .missing named present mode
    | defaulted =>
        simp only [withoutInput, mode, Run.yields_bind, Run.yields_pure] at rest
        obtain ⟨value, last, stood, rfl, rfl⟩ := rest
        exact .standIn named present mode stood
  · rw [fromEntry_of_ne_null present, Run.yields_pure] at rest
    obtain ⟨rfl, rfl⟩ := rest
    exact .given named present

/-- A value that is let in: it was found, the fallback had its say, its shape compares as told, and
every check passes. -/
inductive Admitted (world : World) (config : Configuration) (field : Field) (path : String)
    (entries : List (Value × Value)) (before : Trace) : Value → Fit → Trace → Prop
  | intro {given found fit fitted after} :
      Sought world config field path entries before (.inr given) found →
      (field.type.fit world.heap (substitute world.heap field.declaration given)
        field.sample).Yields found fit fitted →
      (field.firstFailure world.heap (substitute world.heap field.declaration given)).Yields
        fitted .pass after →
      Admitted world config field path entries before
        (substitute world.heap field.declaration given) fit after

/-- The policy lets a failure inside the field pass. -/
def Pardons (config : Configuration) (field : Field) : Prop :=
  config.lenient = true ∧ field.declaration.mode = .optional ∧ isRecordType field.type = true

/-- What becomes of a field whose processing does not break down. -/
inductive Settles (parse : Parse) (world : World) (config : Configuration) (field : Field)
    (path : String) (entries : List (Value × Value)) (before : Trace) :
    FieldOutcome → Trace → Prop
  | unsought {outcome after} : Sought world config field path entries before (.inl outcome) after →
      Settles parse world config field path entries before outcome after
  | refused {given found reason after} :
      Sought world config field path entries before (.inr given) found →
      (field.type.fit world.heap (substitute world.heap field.declaration given)
        field.sample).Yields found (.refused reason) after →
      Settles parse world config field path entries before (.failed (.type path reason)) after
  | rejected {given found fit fitted fail after} :
      Sought world config field path entries before (.inr given) found →
      (field.type.fit world.heap (substitute world.heap field.declaration given)
        field.sample).Yields found fit fitted → (∀ reason, fit ≠ .refused reason) →
      (field.firstFailure world.heap (substitute world.heap field.declaration given)).Yields
        fitted (.failure fail) after →
      Settles parse world config field path entries before (.failed (fail.movedTo path)) after
  | settled {value after} : Admitted world config field path entries before value .settled after →
      Settles parse world config field path entries before (.stored value) after
  | parsed {value middle parsed after} :
      Admitted world config field path entries before value .toParse middle →
      (parse field.type path field.sample value).Yields middle (.ok parsed) after →
      Settles parse world config field path entries before (.stored parsed) after
  | skipped {value middle fail last after} :
      Admitted world config field path entries before value .toParse middle →
      (parse field.type path field.sample value).Yields middle (.error fail) last →
      Pardons config field →
      (config.sink.report s!"skipping nested object {fail.path} - {fail.message}").Yields
        last () after →
      Settles parse world config field path entries before .omitted after
  | failed {value middle fail after} :
      Admitted world config field path entries before value .toParse middle →
      (parse field.type path field.sample value).Yields middle (.error fail) after →
      ¬ Pardons config field →
      Settles parse world config field path entries before (.failed fail) after

theorem locate_yields {heap : Heap} {verdict : Verdict} {found : Option Failure} :
    (Field.locate heap path verdict).Yields before found after ↔ after = before ∧
      (verdict = .pass ∧ found = none ∨
        ∃ fail, verdict = .failure fail ∧ found = some (fail.movedTo path)) := by
  cases verdict <;> simp [Field.locate, and_comm]

/-- What is done with the value of a field that is let in and has to be parsed. -/
def parseField (parse : Parse) (config : Configuration) (field : Field) (path : String)
    (value : Value) : Run FieldOutcome := do
  match ← parse field.type path field.sample value with
  | .ok parsed => return .stored parsed
  | .error fail =>
      if config.lenient ∧ field.declaration.mode = .optional ∧ isRecordType field.type then do
        config.sink.report s!"skipping nested object {fail.path} - {fail.message}"
        return .omitted
      else return .failed fail

/-- What is done with a value that fits. -/
def checkField (parse : Parse) (world : World) (config : Configuration) (field : Field)
    (path : String) (value : Value) (fit : Fit) : Run FieldOutcome := do
  match ← Field.locate world.heap path (← field.firstFailure world.heap value) with
  | some fail => return .failed fail
  | none =>
      match fit with
      | .settled => return .stored value
      | _ => parseField parse config field path value

theorem settleField_eq :
    settleField parse world config field path entries = (do
      match ← inputOf world config field path entries with
      | .inl outcome => return outcome
      | .inr given =>
          let value := substitute world.heap field.declaration given
          match ← field.type.fit world.heap value field.sample with
          | .refused reason => return .failed (.type path reason)
          | fit => checkField parse world config field path value fit) := rfl

/-- What is done with the value of a field once the fallback has had its say. -/
def settleValue (parse : Parse) (world : World) (config : Configuration) (field : Field)
    (path : String) (value : Value) : Run FieldOutcome := do
  match ← field.type.fit world.heap value field.sample with
  | .refused reason => return .failed (.type path reason)
  | fit => checkField parse world config field path value fit

def settleInput (parse : Parse) (world : World) (config : Configuration) (field : Field)
    (path : String) : FieldOutcome ⊕ Value → Run FieldOutcome
  | .inl outcome => return outcome
  | .inr given =>
      settleValue parse world config field path (substitute world.heap field.declaration given)

theorem settleField_eq_keyOf :
    settleField parse world config field path entries =
      (config.keys.keyOf field.name >>= fun key =>
        fromEntry world field path (entryUnder key entries) >>=
          settleInput parse world config field path) := by
  rw [settleField_eq, inputOf_eq, bind_assoc]
  refine bind_congr fun key => bind_congr fun input => ?_
  cases input <;> rfl

theorem settles_of_parseField {value : Value} {middle : Trace} {outcome : FieldOutcome}
    (admitted : Admitted world config field path entries before value .toParse middle)
    (ran : (parseField parse config field path value).Yields middle outcome after) :
    Settles parse world config field path entries before outcome after := by
  simp only [parseField, Run.yields_bind] at ran
  obtain ⟨result, last, parsed, rest⟩ := ran
  cases result with
  | ok stored =>
      simp only [Run.yields_pure] at rest
      obtain ⟨rfl, rfl⟩ := rest
      exact .parsed admitted parsed
  | error fail =>
      dsimp only at rest
      split at rest
      next pardoned =>
        simp only [Run.yields_bind, Run.yields_pure] at rest
        obtain ⟨_, _, reported, rfl, rfl⟩ := rest
        exact .skipped admitted parsed pardoned reported
      next held =>
        simp only [Run.yields_pure] at rest
        obtain ⟨rfl, rfl⟩ := rest
        exact .failed admitted parsed held

theorem settles_of_checkField {given : Value} {fit : Fit} {found fitted : Trace}
    {outcome : FieldOutcome}
    (sought : Sought world config field path entries before (.inr given) found)
    (compared : (field.type.fit world.heap (substitute world.heap field.declaration given)
      field.sample).Yields found fit fitted)
    (fits : ∀ reason, fit ≠ .refused reason)
    (ran : (checkField parse world config field path
      (substitute world.heap field.declaration given) fit).Yields fitted outcome after) :
    Settles parse world config field path entries before outcome after := by
  simp only [checkField, Run.yields_bind, locate_yields] at ran
  obtain ⟨verdict, checked, decided, located, _, ⟨rfl, placed⟩, rest⟩ := ran
  rcases placed with ⟨rfl, rfl⟩ | ⟨fail, rfl, rfl⟩
  · have admitted := Admitted.intro sought compared decided
    cases fit with
    | refused reason => exact absurd rfl (fits reason)
    | settled =>
        simp only [Run.yields_pure] at rest
        obtain ⟨rfl, rfl⟩ := rest
        exact .settled admitted
    | toParse => exact settles_of_parseField admitted rest
  · simp only [Run.yields_pure] at rest
    obtain ⟨rfl, rfl⟩ := rest
    exact .rejected sought compared fits decided

theorem settles_of_settleField {outcome : FieldOutcome}
    (ran : (settleField parse world config field path entries).Yields before outcome after) :
    Settles parse world config field path entries before outcome after := by
  simp only [settleField_eq, Run.yields_bind] at ran
  obtain ⟨input, found, looked, rest⟩ := ran
  have sought := sought_of_inputOf looked
  cases input with
  | inl settled =>
      simp only [Run.yields_pure] at rest
      obtain ⟨rfl, rfl⟩ := rest
      exact .unsought sought
  | inr given =>
      simp only [Run.yields_bind] at rest
      obtain ⟨fit, fitted, compared, rest⟩ := rest
      cases fit with
      | refused reason =>
          simp only [Run.yields_pure] at rest
          obtain ⟨rfl, rfl⟩ := rest
          exact .refused sought compared
      | settled | toParse => exact settles_of_checkField sought compared (by simp) rest

theorem Settles.optional
    (settles : Settles parse world config field path entries before .omitted after) :
    field.declaration.mode = .optional := by
  cases settles with
  | unsought sought =>
      cases sought with
      | omitted _ _ optional => exact optional
  | skipped _ _ pardoned _ => exact pardoned.2.1

section Guarding

variable [Fault.Telling]

/-- Guarded processing ends as the processing itself does, or in a failure that tells what broke
it; the log then has a line on it. -/
theorem guardField_yields_iff {outcome : FieldOutcome} :
    (guardField parse world config field path entries).Yields before outcome after ↔
      (settleField parse world config field path entries).Yields before outcome after ∨
        ∃ fault middle text,
          (settleField parse world config field path entries).Breaks before fault middle ∧
          fault.told = .ok text ∧ outcome = .failed (.unknown path text) ∧
          after = middle ++ [.logged .debug s!"Unexpected error validating '{path}'"] := by
  simp only [guardField, Run.yields_bind, Run.yields_outcome]
  constructor
  · intro found
    rcases found with ⟨result, middle, ⟨value, rfl, ran⟩ | ⟨fault, rfl, broke⟩, rest⟩
    · simp only [Run.yields_pure] at rest
      obtain ⟨rfl, rfl⟩ := rest
      exact .inl ran
    · simp only [Run.debug, Run.yields_bind, Run.yields_record, Run.yields_lift,
        Run.yields_pure] at rest
      obtain ⟨_, _, rfl, text, _, ⟨told, rfl⟩, rfl, rfl⟩ := rest
      exact .inr ⟨fault, middle, text, broke, told, rfl, rfl⟩
  · intro either
    rcases either with ran | ⟨fault, middle, text, broke, told, rfl, rfl⟩
    · exact ⟨.ok outcome, after, .inl ⟨outcome, rfl, ran⟩, by simp⟩
    · refine ⟨.error fault, middle, .inr ⟨fault, rfl, broke⟩, ?_⟩
      simp only [Run.debug, Run.yields_bind, Run.yields_record, Run.yields_lift, Run.yields_pure]
      exact ⟨(), _, rfl, text, _, ⟨told, rfl⟩, rfl, rfl⟩

/-- Guarded processing breaks down where what broke the processing itself cannot be told. -/
theorem guardField_breaks_iff {fault : Fault} :
    (guardField parse world config field path entries).Breaks before fault after ↔
      ∃ raised middle,
        (settleField parse world config field path entries).Breaks before raised middle ∧
        raised.told = .error fault ∧
        after = middle ++ [.logged .debug s!"Unexpected error validating '{path}'"] := by
  simp only [guardField, Run.breaks_bind, Run.breaks_outcome, false_or, Run.yields_outcome]
  constructor
  · intro found
    rcases found with ⟨result, middle, ⟨value, rfl, _⟩ | ⟨raised, rfl, broke⟩, rest⟩
    · exact absurd rest Run.breaks_pure
    · simp only [Run.debug, Run.breaks_bind, Run.breaks_record, false_or, Run.yields_record,
        Run.breaks_lift, Run.breaks_pure, and_false, exists_false, or_false] at rest
      obtain ⟨_, _, rfl, untold, rfl⟩ := rest
      exact ⟨raised, middle, broke, untold, rfl⟩
  · intro found
    obtain ⟨raised, middle, broke, untold, rfl⟩ := found
    refine ⟨.error raised, middle, .inr ⟨raised, rfl, broke⟩, ?_⟩
    simp only [Run.debug, Run.breaks_bind, Run.breaks_record, false_or, Run.yields_record,
      Run.breaks_lift]
    exact ⟨(), _, rfl, .inl ⟨untold, rfl⟩⟩

theorem guardField_of_settleField {outcome : FieldOutcome}
    (ran : (settleField parse world config field path entries).Yields before outcome after) :
    (guardField parse world config field path entries).Yields before outcome after :=
  guardField_yields_iff.mpr (.inl ran)

end Guarding

/-- Where every fault has its text, the text goes into the failure. -/
theorem guardField_yields {outcome : FieldOutcome} :
    (guardField parse world config field path entries).Yields before outcome after ↔
      (settleField parse world config field path entries).Yields before outcome after ∨
        ∃ fault middle,
          (settleField parse world config field path entries).Breaks before fault middle ∧
          outcome = .failed (.unknown path fault.summary) ∧
          after = middle ++ [.logged .debug s!"Unexpected error validating '{path}'"] := by
  simp [guardField_yields_iff]

@[simp] theorem guardField_breaks {fault : Fault} :
    ¬ (guardField parse world config field path entries).Breaks before fault after := by
  simp [guardField_breaks_iff]

section Filling

variable [Fault.Telling]

theorem settles_of_guardField {outcome : FieldOutcome}
    (ran : (guardField parse world config field path entries).Yields before outcome after)
    (sound : ∀ fail, outcome ≠ .failed fail) :
    Settles parse world config field path entries before outcome after := by
  rcases guardField_yields_iff.mp ran with settled | ⟨_, _, _, _, _, failed, _⟩
  · exact settles_of_settleField settled
  · exact absurd failed (sound _)

/-- What becomes of the fields in turn, each with what is stored under its name, up to the first
that fails. -/
inductive Fills (parse : Parse) (world : World) (config : Configuration) (location : String)
    (entries : List (Value × Value)) :
    List Field → Trace → Except Failure (List (String × Value)) → Trace → Prop
  | done {trace} : Fills parse world config location entries [] trace (.ok []) trace
  | omitted {field rest before middle result after} :
      (guardField parse world config field (fieldPath location field.name) entries).Yields
        before .omitted middle →
      Fills parse world config location entries rest middle result after →
      Fills parse world config location entries (field :: rest) before result after
  | stored {field rest before value middle result after} :
      (guardField parse world config field (fieldPath location field.name) entries).Yields
        before (.stored value) middle →
      Fills parse world config location entries rest middle result after →
      Fills parse world config location entries (field :: rest) before
        (result.map ((field.name, value) :: ·)) after
  | failed {field rest before fail after} :
      (guardField parse world config field (fieldPath location field.name) entries).Yields
        before (.failed fail) after →
      Fills parse world config location entries (field :: rest) before (.error fail) after

variable {location : String} {fields : List Field} {stored : List (String × Value)}

theorem Fills.cons_ok {rest : List Field}
    (fills : Fills parse world config location entries (field :: rest) before (.ok stored) after) :
    (∃ middle, (guardField parse world config field (fieldPath location field.name)
        entries).Yields before .omitted middle ∧
      Fills parse world config location entries rest middle (.ok stored) after) ∨
    ∃ value others middle, (guardField parse world config field (fieldPath location field.name)
        entries).Yields before (.stored value) middle ∧
      Fills parse world config location entries rest middle (.ok others) after ∧
      stored = (field.name, value) :: others := by
  generalize filled : (Except.ok stored : Except Failure (List (String × Value))) = result at fills
  cases fills with
  | omitted guarded fills => exact .inl ⟨_, guarded, filled ▸ fills⟩
  | @stored _ _ _ value middle others _ guarded fills =>
      cases others with
      | error fail => cases filled
      | ok others =>
          cases filled
          exact .inr ⟨value, others, middle, guarded, fills, rfl⟩
  | failed _ => cases filled

theorem Fills.failed_field {fail : Failure}
    (fills : Fills parse world config location entries fields before (.error fail) after) :
    ∃ field ∈ fields, ∃ first,
      (guardField parse world config field (fieldPath location field.name) entries).Yields
        first (.failed fail) after := by
  generalize broken : (Except.error fail : Except Failure (List (String × Value))) = result at fills
  induction fills with
  | done => cases broken
  | omitted _ _ ih =>
      obtain ⟨field, member, found⟩ := ih broken
      exact ⟨field, List.mem_cons_of_mem _ member, found⟩
  | @stored _ _ _ _ _ others _ _ _ ih =>
      cases others with
      | ok others => cases broken
      | error other =>
          cases broken
          obtain ⟨field, member, found⟩ := ih rfl
          exact ⟨field, List.mem_cons_of_mem _ member, found⟩
  | @failed field rest before _ after guarded =>
      cases broken
      exact ⟨field, by simp, before, guarded⟩

theorem fills_of_settleFields {result : Except Failure (List (String × Value))}
    (ran : (settleFields parse world config location entries fields stored).Yields
      before result after) :
    ∃ filled, Fills parse world config location entries fields before filled after ∧
      result = filled.map (stored ++ ·) := by
  induction fields generalizing before stored with
  | nil =>
      simp only [settleFields, Run.yields_pure] at ran
      obtain ⟨rfl, rfl⟩ := ran
      exact ⟨.ok [], .done, by simp [Except.map]⟩
  | cons field rest ih =>
      simp only [settleFields, Run.yields_bind] at ran
      obtain ⟨outcome, middle, guarded, ran⟩ := ran
      cases outcome with
      | omitted =>
          obtain ⟨filled, fills, rfl⟩ := ih ran
          exact ⟨filled, .omitted guarded fills, rfl⟩
      | stored value =>
          obtain ⟨filled, fills, rfl⟩ := ih ran
          refine ⟨_, .stored guarded fills, ?_⟩
          cases filled <;> simp [Except.map]
      | failed fail =>
          simp only [Run.yields_pure] at ran
          obtain ⟨rfl, rfl⟩ := ran
          exact ⟨_, .failed guarded, rfl⟩

theorem settleFields_append {done rest : List Field} {filled : List (String × Value)}
    {middle : Trace}
    (ran : (settleFields parse world config location entries done stored).Yields before
      (.ok filled) middle) :
    (settleFields parse world config location entries (done ++ rest) stored).run.run before =
      (settleFields parse world config location entries rest filled).run.run middle := by
  induction done generalizing stored before with
  | nil =>
      obtain ⟨same, rfl⟩ := Run.yields_pure.mp ran
      cases same
      rfl
  | cons field done ih =>
      simp only [settleFields, Run.yields_bind] at ran
      obtain ⟨outcome, last, guarded, ran⟩ := ran
      refine guarded.bind.trans ?_
      cases outcome with
      | omitted => exact ih ran
      | stored value => exact ih ran
      | failed fail => simp at ran

/-- Fields in turn fail where one of them does, after all before it have gone well. -/
theorem settleFields_fails_iff {fail : Failure} :
    (settleFields parse world config location entries fields stored).Yields before (.error fail)
        after ↔
      ∃ done field rest filled middle, fields = done ++ field :: rest ∧
        (settleFields parse world config location entries done stored).Yields before (.ok filled)
          middle ∧
        (guardField parse world config field (fieldPath location field.name) entries).Yields middle
          (.failed fail) after := by
  constructor
  · intro failed
    induction fields generalizing before stored with
    | nil => simp [settleFields] at failed
    | cons field rest ih =>
        simp only [settleFields, Run.yields_bind] at failed
        obtain ⟨outcome, last, guarded, failed⟩ := failed
        cases outcome with
        | failed own =>
            obtain ⟨same, rfl⟩ := Run.yields_pure.mp failed
            cases same
            exact ⟨[], field, rest, stored, before, rfl, Run.yields_pure.mpr ⟨rfl, rfl⟩, guarded⟩
        | omitted | stored value =>
            obtain ⟨done, other, others, filled, middle, rfl, settled, failed⟩ := ih failed
            exact ⟨field :: done, other, others, filled, middle, rfl,
              guarded.bind.trans settled, failed⟩
  · intro found
    obtain ⟨done, field, rest, filled, middle, rfl, settled, failed⟩ := found
    exact (settleFields_append settled).trans (failed.bind.trans rfl)

/-- Fields in turn break down where one of them does, after all before it have gone well. -/
theorem settleFields_breaks_iff {fault : Fault} :
    (settleFields parse world config location entries fields stored).Breaks before fault after ↔
      ∃ done field rest filled middle, fields = done ++ field :: rest ∧
        (settleFields parse world config location entries done stored).Yields before (.ok filled)
          middle ∧
        (guardField parse world config field (fieldPath location field.name) entries).Breaks middle
          fault after := by
  constructor
  · intro broke
    induction fields generalizing before stored with
    | nil => simp [settleFields] at broke
    | cons field rest ih =>
        simp only [settleFields, Run.breaks_bind] at broke
        rcases broke with broke | ⟨outcome, last, guarded, broke⟩
        · exact ⟨[], field, rest, stored, before, rfl, Run.yields_pure.mpr ⟨rfl, rfl⟩, broke⟩
        · cases outcome with
          | failed fail => simp at broke
          | omitted | stored value =>
              obtain ⟨done, other, others, filled, middle, rfl, settled, broke⟩ := ih broke
              exact ⟨field :: done, other, others, filled, middle, rfl,
                guarded.bind.trans settled, broke⟩
  · intro found
    obtain ⟨done, field, rest, filled, middle, rfl, settled, broke⟩ := found
    exact (settleFields_append settled).trans broke.bind

end Filling

@[simp] theorem settleFields_breaks {location : String} {fields : List Field}
    {stored : List (String × Value)} {fault : Fault} :
    ¬ (settleFields parse world config location entries fields stored).Breaks
      before fault after := by
  simp [settleFields_breaks_iff]

/-- What becomes of data that is validated against a compiled schema. -/
inductive Validates [Fault.Telling] (parse : Parse) (world : World) (config : Configuration)
    (schema : Schema) (location : String) (data : Value) (before : Trace) : Outcome → Trace → Prop
  | settled {recordClass fields} : world.heap.look data = .record recordClass fields →
      recordClass.extends schema.recordClass = true →
      Validates parse world config schema location data before (.ok data) before
  | refused {compiled} : schema.compiled = some compiled →
      (∀ entries, world.heap.look data ≠ .mapping entries) →
      (∀ recordClass fields, world.heap.look data = .record recordClass fields →
        recordClass.extends schema.recordClass = false) →
      Validates parse world config schema location data before
        (.error (.type location s!"expected object but got {world.heap.shapeName data}")) before
  | failed {compiled entries fail after} : schema.compiled = some compiled →
      world.heap.look data = .mapping entries →
      Fills parse world config location entries compiled.fields before (.error fail) after →
      Validates parse world config schema location data before (.error fail) after
  | built {compiled entries fields middle value after} : schema.compiled = some compiled →
      world.heap.look data = .mapping entries →
      Fills parse world config location entries compiled.fields before (.ok fields) middle →
      (config.finisher.finish world.heap (.record schema.recordClass fields)).Yields
        middle value after →
      Validates parse world config schema location data before (.ok value) after

variable {location : String} {schema : Schema} {data : Value}

@[simp] theorem demandCompiled_ok {compiled : Compiled} :
    schema.demandCompiled = .ok compiled ↔ schema.compiled = some compiled := by
  unfold Schema.demandCompiled
  cases schema.compiled <;> simp

theorem validates_of_validateWith [Fault.Telling] {outcome : Outcome}
    (ran : (validateWith parse world config schema location data).Yields before outcome after) :
    Validates parse world config schema location data before outcome after := by
  simp only [validateWith] at ran
  split at ran
  next recordClass fields shape =>
    split at ran
    next below =>
      simp only [Run.yields_pure] at ran
      obtain ⟨rfl, rfl⟩ := ran
      exact .settled shape below
    next apart =>
      simp only [Run.yields_bind, Run.yields_lift, Run.yields_pure, demandCompiled_ok] at ran
      obtain ⟨compiled, _, ⟨known, rfl⟩, rfl, rfl⟩ := ran
      refine .refused known (by simp [shape]) ?_
      intro other _ same
      cases shape.symm.trans same
      simpa using apart
  next entries shape =>
    simp only [Run.yields_bind, Run.yields_lift, demandCompiled_ok] at ran
    obtain ⟨compiled, _, ⟨known, rfl⟩, result, middle, filled, ran⟩ := ran
    obtain ⟨result, fills, rfl⟩ := fills_of_settleFields filled
    cases result with
    | error fail =>
        simp only [Except.map, Run.yields_pure] at ran
        obtain ⟨rfl, rfl⟩ := ran
        exact .failed known shape fills
    | ok fields =>
        simp only [Except.map, List.nil_append, Run.yields_bind, Run.yields_pure] at ran
        obtain ⟨value, _, finished, rfl, rfl⟩ := ran
        exact .built known shape fills finished
  next noRecord noMapping =>
    simp only [Run.yields_bind, Run.yields_lift, Run.yields_pure, demandCompiled_ok] at ran
    obtain ⟨compiled, _, ⟨known, rfl⟩, rfl, rfl⟩ := ran
    exact .refused known noMapping (fun recordClass fields same => absurd same (noRecord _ _))

end Validation

end Exemplar
