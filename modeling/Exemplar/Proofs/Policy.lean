import Exemplar.Proofs.Containment
import Exemplar.Proofs.Silence

/-!
Two runs that differ in the policy alone. As long as nothing fails they are one and the same run.
From the first failure that the policy passes over, the strict run is bound to fail, while the
lenient one has given a warning, whatever comes of it.
-/

namespace Exemplar

namespace Run

variable {α β : Type}

/-- The trace has grown, and by no warning. -/
def WithoutWarning (before after : Trace) : Prop :=
  ∃ events, after = before ++ events ∧ ∀ event ∈ events, event.isWarning = false

/-- From the trace, both computations run alike and give no warning, or the strict one yields a
value that counts as failed and the lenient one warns. -/
def SoftensFrom (failed : α → Prop) (strict lenient : Run α) (before : Trace) : Prop :=
  lenient.run.run before = strict.run.run before ∧ strict.SilentFrom before ∨
    (∃ value after, strict.Yields before value after ∧ failed value) ∧ lenient.WarnsFrom before

def Softens (failed : α → Prop) (strict lenient : Run α) : Prop :=
  ∀ before, SoftensFrom failed strict lenient before

variable {failed : α → Prop} {failedNext : β → Prop} {action strict lenient : Run α}
  {next strictNext lenientNext : α → Run β} {before after : Trace} {value : α}

theorem WarnsFrom.bind (first : action.WarnsFrom before)
    (rest : ∀ value before, ∃ result events,
      (next value).run.run before = (result, before ++ events)) :
    (action >>= next).WarnsFrom before := by
  obtain ⟨result, events, ran, event, member, warning⟩ := first
  cases result with
  | error fault =>
      have broke : action.Breaks before fault (before ++ events) := ran
      exact ⟨.error fault, events, broke.bind, event, member, warning⟩
  | ok value =>
      have yielded : action.Yields before value (before ++ events) := ran
      obtain ⟨result, more, further⟩ := rest value (before ++ events)
      refine ⟨result, events ++ more, ?_, event, by simp [member], warning⟩
      rw [yielded.bind, further, List.append_assoc]

theorem softens_of_silent (silent : action.Silent) : Softens failed action action :=
  fun before => .inl ⟨rfl, silent before⟩

theorem softens_of_fails
    (fails : ∀ before, ∃ value after, strict.Yields before value after ∧ failed value)
    (warns : ∀ before, lenient.WarnsFrom before) : Softens failed strict lenient :=
  fun before => .inr ⟨fails before, warns before⟩

/-- The lenient computation takes nothing from the trace. -/
theorem Softens.adds (softens : Softens failed strict lenient) (before : Trace) :
    ∃ result events, lenient.run.run before = (result, before ++ events) := by
  rcases softens before with ⟨same, result, events, ran, _⟩ | ⟨_, result, events, ran, _⟩
  · exact ⟨result, events, same.trans ran⟩
  · exact ⟨result, events, ran⟩

/-- Both have run alike and go on from there. -/
theorem SoftensFrom.bind {events : List Event} (strict_ : strict.Yields before value after)
    (lenient_ : lenient.Yields before value after) (grown : after = before ++ events)
    (quiet : ∀ event ∈ events, event.isWarning = false)
    (rest : SoftensFrom failedNext (strictNext value) (lenientNext value) after) :
    SoftensFrom failedNext (strict >>= strictNext) (lenient >>= lenientNext) before := by
  subst grown
  rcases rest with ⟨same, result, more, further, still⟩ |
    ⟨⟨last, after, ended, fail⟩, result, more, further, event, member, warning⟩
  · refine .inl ⟨?_, result, events ++ more, ?_, ?_⟩
    · rw [lenient_.bind, strict_.bind, same]
    · rw [strict_.bind, further, List.append_assoc]
    · intro event member
      rcases List.mem_append.mp member with early | late
      · exact quiet event early
      · exact still event late
  · refine .inr ⟨⟨last, after, strict_.bind.trans ended, fail⟩, result, events ++ more, ?_, event,
      by simp [member], warning⟩
    rw [lenient_.bind, further, List.append_assoc]

theorem Softens.bind (first : Softens failed strict lenient)
    (passed : ∀ {value}, failed value → ∀ before, ∃ result after,
      (strictNext value).Yields before result after ∧ failedNext result)
    (rest : ∀ value, Softens failedNext (strictNext value) (lenientNext value)) :
    Softens failedNext (strict >>= strictNext) (lenient >>= lenientNext) := by
  intro before
  rcases first before with ⟨same, result, events, ran, quiet⟩ |
    ⟨⟨value, after, yielded, fail⟩, warns⟩
  · cases result with
    | error fault =>
        have broke : strict.Breaks before fault (before ++ events) := ran
        have alike : lenient.Breaks before fault (before ++ events) := same.trans ran
        exact .inl ⟨alike.bind.trans (Eq.symm broke.bind), .error fault, events, broke.bind, quiet⟩
    | ok value => exact .bind ran (same.trans ran) rfl quiet (rest value _)
  · obtain ⟨last, ending, ended, failing⟩ := passed fail after
    exact .inr ⟨⟨last, ending, yielded.bind.trans ended, failing⟩,
      warns.bind fun value => (rest value).adds⟩

/-- What both do first has to be followed for the values only that it can come to. -/
theorem softens_after (first : action.Silent)
    (rest : ∀ {before value after}, action.Yields before value after →
      Softens failedNext (strictNext value) (lenientNext value)) :
    Softens failedNext (action >>= strictNext) (action >>= lenientNext) := by
  intro before
  obtain ⟨result, events, ran, quiet⟩ := first before
  cases result with
  | error fault =>
      have broke : action.Breaks before fault (before ++ events) := ran
      exact .inl ⟨broke.bind.trans (Eq.symm broke.bind), .error fault, events, broke.bind, quiet⟩
  | ok value => exact .bind ran ran rfl quiet (rest ran _)

theorem Softens.outcome (softens : Softens failed strict lenient) :
    Softens (fun result => ∃ value, result = .ok value ∧ failed value) strict.outcome
      lenient.outcome := by
  have opened (action : Run α) (before : Trace) : action.outcome.run.run before =
      (.ok (action.run.run before).1, (action.run.run before).2) := rfl
  intro before
  rcases softens before with ⟨same, result, events, ran, quiet⟩ |
    ⟨⟨value, after, yielded, fail⟩, result, events, ran, warns⟩
  · refine .inl ⟨?_, .ok result, events, ?_, quiet⟩
    · rw [opened, opened, same]
    · rw [opened, ran]
  · refine .inr ⟨⟨.ok value, after, ?_, value, rfl, fail⟩, .ok result, events, ?_, warns⟩
    · exact yields_outcome.mpr (.inl ⟨value, rfl, yielded⟩)
    · rw [opened, ran]

/-- What the strict computation yields without a failure is what the lenient one yields without a
warning. -/
theorem Softens.yields_iff (softens : Softens failed strict lenient) (sound : ¬ failed value) :
    strict.Yields before value after ↔
      lenient.Yields before value after ∧ WithoutWarning before after := by
  rcases softens before with ⟨same, result, events, ran, quiet⟩ |
    ⟨⟨other, last, ended, fail⟩, result, events, ran, event, member, warning⟩
  · constructor
    · intro yielded
      have split : (Except.ok value, after) = (result, before ++ events) := yielded.symm.trans ran
      cases split
      exact ⟨same.trans ran, events, rfl, quiet⟩
    · intro found
      exact same.symm.trans found.1
  · constructor
    · intro yielded
      obtain ⟨rfl, _⟩ := yielded.unique ended
      exact absurd fail sound
    · intro found
      obtain ⟨yielded, more, rfl, quiet⟩ := found
      have split : (Except.ok value, before ++ more) = (result, before ++ events) :=
        yielded.symm.trans ran
      have whole : more = events := List.append_cancel_left (congrArg Prod.snd split)
      rw [quiet event (whole ▸ member)] at warning
      cases warning

end Run

open Run

/-- Two configurations that are the same but for the policy, with catalogues of the same types. -/
structure World.DifferInPolicy (world : World) (strict lenient : Configuration) : Prop where
  off : strict.lenient = false
  on : lenient.lenient = true
  sink : lenient.sink = strict.sink
  finisher : lenient.finisher = strict.finisher
  keys : lenient.keys = strict.keys
  catalogue : world.catalogue lenient.catalogue = world.catalogue strict.catalogue

/-- The hooks give no warning of their own, and every report to the sink is one. -/
structure Configuration.Reports (config : Configuration) : Prop where
  keys : ∀ name, (config.keys.keyOf name).Silent
  finisher : ∀ heap record, (config.finisher.finish heap record).Silent
  sink : ∀ text before, (config.sink.report text).WarnsFrom before

namespace Validation

variable {world : World} {strict lenient : Configuration}

def IsFailure (outcome : Outcome) : Prop := ∃ fail, outcome = .error fail

def IsFailed (outcome : FieldOutcome) : Prop := ∃ fail, outcome = .failed fail

/-- One way to parse softens another, for types that give no warning by themselves and that leave
nothing to the application which is not the same by both configurations. -/
def ParseSoftens (strict lenient : Configuration) (strictParse lenientParse : Parse) : Prop :=
  ∀ type path sample value, type.Silent → type.AlikeBy strict lenient →
    Softens IsFailure (strictParse type path sample value) (lenientParse type path sample value)

variable {strictParse lenientParse : Parse}

theorem softens_parseItem {heap : Heap} {collection : Collection} {element : ValueType}
    {sample gathered item : Value} {place : String} (policy : world.DifferInPolicy strict lenient)
    (reports : strict.Reports) (parses : ParseSoftens strict lenient strictParse lenientParse)
    (kind : collection.Silent) (silent : element.Silent) (alike : element.AlikeBy strict lenient) :
    Softens IsFailure
      (parseItem strictParse heap strict collection element sample place gathered item)
      (parseItem lenientParse heap lenient collection element sample place gathered item) := by
  refine softens_after silent.fit fun {_ fit _} _ => ?_
  cases fit with
  | refused reason => exact softens_of_silent silent_pure
  | settled =>
      exact softens_of_silent ((kind.insert heap gathered item).bind fun _ => silent_pure)
  | toParse =>
      refine (parses element place sample item silent alike).bind ?_ fun result => ?_
      · intro result failed before
        obtain ⟨fail, rfl⟩ := failed
        exact ⟨.error fail, before, by simp [policy.off], fail, rfl⟩
      · cases result with
        | ok parsed =>
            exact softens_of_silent ((kind.insert heap gathered parsed).bind fun _ => silent_pure)
        | error fail =>
            refine softens_of_fails (fun before => ⟨.error fail, before, ?_, fail, rfl⟩)
              fun before => ?_
            · simp [policy.off]
            · simp only [policy.on, if_true, policy.sink]
              exact (reports.sink _ before).bind fun _ before => ⟨_, [], by simp; rfl⟩

theorem softens_parseElements {heap : Heap} {collection : Collection} {element : ValueType}
    {sample gathered : Value} {path : String} {index : Nat} {values : List Value}
    (policy : world.DifferInPolicy strict lenient) (reports : strict.Reports)
    (parses : ParseSoftens strict lenient strictParse lenientParse) (kind : collection.Silent)
    (silent : element.Silent) (alike : element.AlikeBy strict lenient) :
    Softens IsFailure
      (parseElements strictParse heap strict collection element sample path index gathered values)
      (parseElements lenientParse heap lenient collection element sample path index gathered
        values) := by
  induction values generalizing index gathered with
  | nil => exact softens_of_silent silent_pure
  | cons item rest ih =>
      rw [parseElements_cons, parseElements_cons]
      refine (softens_parseItem policy reports parses kind silent alike).bind ?_ fun result => ?_
      · intro result failed before
        obtain ⟨fail, rfl⟩ := failed
        exact ⟨.error fail, before, by simp, fail, rfl⟩
      · cases result with
        | ok grown => exact ih
        | error fail => exact softens_of_silent silent_pure

theorem softens_parseCollection {collection : Collection} {element : Option ValueType}
    {sample value : Value} {path : String} (quiet : world.Silent)
    (alike : world.AlikeBy strict lenient) (policy : world.DifferInPolicy strict lenient)
    (reports : strict.Reports) (parses : ParseSoftens strict lenient strictParse lenientParse)
    (kind : collection.Silent) (silent : ∀ type ∈ element, type.Silent)
    (own : ∀ type ∈ element, type.AlikeBy strict lenient) :
    Softens IsFailure
      (parseCollection strictParse world strict collection element path sample value)
      (parseCollection lenientParse world lenient collection element path sample value) := by
  rw [parseCollection_eq, parseCollection_eq]
  refine softens_after kind.empty fun {_ empty _} _ => ?_
  refine softens_after (kind.first world.heap sample) fun {_ first _} _ => ?_
  cases first with
  | none =>
      exact softens_of_silent (silent_lift.bind fun _ => silent_insertAll kind)
  | some representative =>
      have same : elementType world lenient element representative =
          elementType world strict element representative := by
        unfold elementType
        rw [policy.catalogue]
      dsimp only
      rw [same]
      have resolved : (elementType world strict element representative).Silent := by
        cases element with
        | none => exact Catalogue.silent_typeFor fun _ => quiet.types
        | some type => exact silent_pure
      refine softens_after resolved fun {_ type _} found => ?_
      have inner : type.Silent := by
        cases element with
        | none => exact Catalogue.Silent.of_typeFor (fun _ => quiet.types) found
        | some bound =>
            obtain ⟨rfl, _⟩ := Run.yields_pure.mp found
            exact silent _ rfl
      exact softens_after silent_lift fun _ =>
        softens_parseElements policy reports parses kind inner (alikeBy_of_elementType alike own found)

section Fields

variable {field : Field} {path : String} {entries : List (Value × Value)}

theorem softens_parseField {value : Value} (policy : world.DifferInPolicy strict lenient)
    (reports : strict.Reports) (parses : ParseSoftens strict lenient strictParse lenientParse)
    (silent : field.Silent) (alike : field.type.AlikeBy strict lenient) :
    Softens IsFailed (parseField strictParse strict field path value)
      (parseField lenientParse lenient field path value) := by
  refine (parses field.type path field.sample value silent.type alike).bind ?_ fun result => ?_
  · intro result failed before
    obtain ⟨fail, rfl⟩ := failed
    exact ⟨.failed fail, before, by simp [policy.off], fail, rfl⟩
  · cases result with
    | ok parsed => exact softens_of_silent silent_pure
    | error fail =>
        by_cases open_ : field.declaration.mode = .optional ∧ isRecordType field.type = true
        · refine softens_of_fails (fun before => ⟨.failed fail, before, ?_, fail, rfl⟩)
            fun before => ?_
          · simp [policy.off]
          · simp only [policy.on, open_, and_self, if_true, policy.sink]
            exact (reports.sink _ before).bind fun _ before => ⟨_, [], by simp; rfl⟩
        · simp only [policy.on, policy.off, open_, and_false, if_false]
          exact softens_of_silent silent_pure

theorem softens_settleField (policy : world.DifferInPolicy strict lenient)
    (reports : strict.Reports) (parses : ParseSoftens strict lenient strictParse lenientParse)
    (silent : field.Silent) (alike : field.type.AlikeBy strict lenient) :
    Softens IsFailed (settleField strictParse world strict field path entries)
      (settleField lenientParse world lenient field path entries) := by
  have sought : inputOf world lenient field path entries =
      inputOf world strict field path entries := by
    rw [inputOf_eq, inputOf_eq, policy.keys]
  rw [settleField_eq, settleField_eq, sought]
  refine softens_after (silent_inputOf reports.keys silent) fun {_ input _} _ => ?_
  cases input with
  | inl outcome => exact softens_of_silent silent_pure
  | inr given =>
      refine softens_after silent.type.fit fun {_ fit _} _ => ?_
      have checked (compared : Fit) : Softens IsFailed
          (checkField strictParse world strict field path
            (substitute world.heap field.declaration given) compared)
          (checkField lenientParse world lenient field path
            (substitute world.heap field.declaration given) compared) := by
        refine softens_after silent.firstFailure fun {_ verdict _} _ => ?_
        refine softens_after Field.silent_locate fun {_ located _} _ => ?_
        cases located with
        | some fail => exact softens_of_silent silent_pure
        | none =>
            cases compared with
            | settled => exact softens_of_silent silent_pure
            | refused _ | toParse => exact softens_parseField policy reports parses silent alike
      cases fit with
      | refused reason => exact softens_of_silent silent_pure
      | settled | toParse => exact checked _

theorem softens_guardField (policy : world.DifferInPolicy strict lenient)
    (reports : strict.Reports) (parses : ParseSoftens strict lenient strictParse lenientParse)
    (silent : field.Silent) (alike : field.type.AlikeBy strict lenient) :
    Softens IsFailed (guardField strictParse world strict field path entries)
      (guardField lenientParse world lenient field path entries) := by
  refine (softens_settleField policy reports parses silent alike).outcome.bind ?_ fun result => ?_
  · intro result failed before
    obtain ⟨_, rfl, fail, rfl⟩ := failed
    exact ⟨.failed fail, before, by simp, fail, rfl⟩
  · cases result with
    | ok outcome => exact softens_of_silent silent_pure
    | error fault => exact softens_of_silent (silent_debug.bind fun _ => silent_pure)

theorem softens_settleFields {location : String} {fields : List Field}
    {stored : List (String × Value)} (policy : world.DifferInPolicy strict lenient)
    (reports : strict.Reports) (parses : ParseSoftens strict lenient strictParse lenientParse)
    (silent : ∀ field ∈ fields, field.Silent)
    (alike : ∀ field ∈ fields, field.type.AlikeBy strict lenient) :
    Softens (fun result => ∃ fail, result = .error fail)
      (settleFields strictParse world strict location entries fields stored)
      (settleFields lenientParse world lenient location entries fields stored) := by
  induction fields generalizing stored with
  | nil => exact softens_of_silent silent_pure
  | cons field rest ih =>
      rw [List.forall_mem_cons] at silent alike
      refine (softens_guardField policy reports parses silent.1 alike.1).bind ?_ fun outcome => ?_
      · intro outcome failed before
        obtain ⟨fail, rfl⟩ := failed
        exact ⟨.error fail, before, by simp, fail, rfl⟩
      · cases outcome with
        | omitted => exact ih silent.2 alike.2
        | stored value => exact ih silent.2 alike.2
        | failed fail => exact softens_of_silent silent_pure

end Fields

theorem softens_validateWith {id : SchemaId} {location : String} {data : Value}
    (quiet : world.Silent) (alike : world.AlikeBy strict lenient)
    (policy : world.DifferInPolicy strict lenient) (reports : strict.Reports)
    (parses : ParseSoftens strict lenient strictParse lenientParse) :
    Softens IsFailure (validateWith strictParse world strict (world.schema id) location data)
      (validateWith lenientParse world lenient (world.schema id) location data) := by
  simp only [validateWith]
  split
  next =>
    split
    next => exact softens_of_silent silent_pure
    next => exact softens_of_silent (silent_lift.bind fun _ => silent_pure)
  next =>
    refine softens_after silent_lift fun {_ compiled _} found => ?_
    have known := demandCompiled_ok.mp (Run.yields_lift.mp found).1
    refine (softens_settleFields policy reports parses (fun _ => quiet.fields known)
      fun _ => alike.fields known).bind ?_ fun result => ?_
    · intro result failed before
      obtain ⟨fail, rfl⟩ := failed
      exact ⟨.error fail, before, by simp, fail, rfl⟩
    · cases result with
      | error fail => exact softens_of_silent silent_pure
      | ok fields =>
          rw [policy.finisher]
          exact softens_of_silent ((reports.finisher _ _).bind fun _ => silent_pure)
  next => exact softens_of_silent (silent_lift.bind fun _ => silent_pure)

theorem softens_parseObject {sample value : Value} {path : String} (quiet : world.Silent)
    (alike : world.AlikeBy strict lenient) (policy : world.DifferInPolicy strict lenient)
    (reports : strict.Reports) (parses : ParseSoftens strict lenient strictParse lenientParse) :
    Softens IsFailure (parseObject strictParse world strict path sample value)
      (parseObject lenientParse world lenient path sample value) := by
  unfold parseObject
  split
  next => exact softens_validateWith quiet alike policy reports parses
  next =>
    split
    next => exact softens_of_silent silent_pure
    next => exact softens_of_silent silent_throw

/-- A type of the application is run alike under both policies. -/
theorem softens_parseTo_custom {limit : Nat} {own : Custom} {path : String} {sample value : Value}
    (silent : own.Silent) (alike : own.parse strict = own.parse lenient) :
    Softens IsFailure (parseTo world strict limit (.custom own) path sample value)
      (parseTo world lenient limit (.custom own) path sample value) := by
  cases limit <;> simp only [parseTo, alike] <;> exact softens_of_silent (silent.parse _ _ _ _ _)

theorem softens_parseTo (quiet : world.Silent) (alike : world.AlikeBy strict lenient)
    (policy : world.DifferInPolicy strict lenient) (reports : strict.Reports) (limit : Nat) :
    ParseSoftens strict lenient (parseTo world strict limit) (parseTo world lenient limit) := by
  induction limit with
  | zero =>
      intro type path sample value silent same
      cases silent with
      | primitive => exact softens_of_silent silent_pure
      | bigInteger => exact softens_of_silent silent_lift
      | custom own => exact softens_parseTo_custom own same
      | record | unbound _ | bound _ _ => exact softens_of_silent silent_throw
  | succ limit ih =>
      intro type path sample value silent same
      -- Only records and collections ask for the policy; the others run alike under both.
      cases silent with
      | primitive => exact softens_of_silent silent_pure
      | bigInteger => exact softens_of_silent silent_lift
      | custom own => exact softens_parseTo_custom own same
      | record => exact softens_parseObject quiet alike policy reports ih
      | unbound kind =>
          exact softens_parseCollection quiet alike policy reports ih kind (by simp)
            (same.inside .unbound)
      | bound kind inner =>
          exact softens_parseCollection quiet alike policy reports ih kind (by simpa using inner)
            (same.inside .bound)

/-- The elements of a list, parsed like those of an array field with the schema's own sample. -/
def parseList (world : World) (config : Configuration) (schema : Schema) (data : Value) :
    Run Outcome := do
  let compiled ← schema.demandCompiled
  let sample : Value := .list [compiled.sample]
  let type ← (world.catalogue compiled.catalogue).bind world.heap (.unbound .array) sample
  parseTo world config (limit world data) type "" sample data

theorem validateList_yields {schema : Schema} {data value : Value} {before after : Trace}
    {named : Option ConfigurationId} :
    (world.validateList schema data named).Yields before value after ↔
      (∃ items, world.heap.look data = .list items) ∧
        (parseList world (world.config (world.governing schema named)) schema data).Yields before
          (.ok value) after := by
  have demanded {outcome : Outcome} {middle : Trace} :
      (World.demand outcome).Yields middle value after ↔
        outcome = .ok value ∧ after = middle := by
    cases outcome <;> simp [World.demand, eq_comm]
  simp only [World.validateList]
  split
  next items shape =>
    simp only [parseList, Run.yields_bind, demanded, shape]
    constructor
    · intro found
      obtain ⟨compiled, declared, known, type, bound, made, outcome, _, parsed, rfl, rfl⟩ := found
      exact ⟨⟨items, rfl⟩, compiled, declared, known, type, bound, made, parsed⟩
    · intro found
      obtain ⟨_, compiled, declared, known, type, bound, made, parsed⟩ := found
      exact ⟨compiled, declared, known, type, bound, made, .ok value, after, parsed, rfl, rfl⟩
  next other =>
    simp only [Run.yields_throw, false_iff, not_and]
    intro found
    obtain ⟨items, shape⟩ := found
    exact absurd shape (other items)

theorem softens_parseList {schema : Schema} {data : Value} (quiet : world.Silent)
    (alike : world.AlikeBy strict lenient) (policy : world.DifferInPolicy strict lenient)
    (reports : strict.Reports) :
    Softens IsFailure (parseList world strict schema data)
      (parseList world lenient schema data) := by
  refine softens_after silent_lift fun {_ compiled _} _ => ?_
  have types : ∀ type ∈ world.catalogue compiled.catalogue, type.Silent := fun _ => quiet.types
  refine softens_after (Catalogue.silent_bindTo types (.unbound Collection.silent_array))
    fun made => ?_
  have silent := Catalogue.Silent.of_bindTo types (.unbound Collection.silent_array) made
  exact softens_parseTo quiet alike policy reports _ _ _ _ _ silent
    ((Catalogue.binds_of_bindTo made).alikeBy (fun _ => alike.types) trivial)

end Validation

open Validation in
/-- The policy is conservative: a strict run gives a value exactly where the lenient one gives it
without a warning, and by the same events, among them what hooks record of their calls. Types of the
application are taken to make the same of values under both. -/
theorem strict_iff_lenient_without_warning {world : World} (quiet : world.Silent) :
    (∀ strict lenient, world.DifferInPolicy strict lenient → world.AlikeBy strict lenient →
      strict.Reports → ∀ id location data before value after,
        (world.validateAt strict (world.schema id) location data).Yields before (.ok value)
          after ↔
        (world.validateAt lenient (world.schema id) location data).Yields before (.ok value)
          after ∧ WithoutWarning before after) ∧
    ∀ strictId lenientId, world.DifferInPolicy (world.config strictId) (world.config lenientId) →
      world.AlikeBy (world.config strictId) (world.config lenientId) →
      (world.config strictId).Reports →
      ∀ schema data before value after,
        (world.validateList schema data (some strictId)).Yields before value after ↔
        (world.validateList schema data (some lenientId)).Yields before value after ∧
          WithoutWarning before after := by
  have sound {value : Value} : ¬ IsFailure (.ok value) := by
    intro failed
    obtain ⟨fail, same⟩ := failed
    cases same
  constructor
  · intro strict lenient policy alike reports id location data before value after
    have parses := softens_parseTo quiet alike policy reports (limit world data)
    exact (softens_validateWith quiet alike policy reports parses).yields_iff sound
  · intro strictId lenientId policy alike reports schema data before value after
    rw [validateList_yields, validateList_yields, and_assoc]
    exact and_congr_right fun _ => (softens_parseList quiet alike policy reports).yields_iff sound

namespace Nodes

/-- Tells of every new record and of every part that is left out. -/
def telling (lenient : Bool) : Configuration where
  lenient
  sink := ⟨some "collect", fun text => Run.record (.warned text)⟩
  finisher := ⟨some "track", fun _ record => do
    Run.record (.finished record)
    return record⟩
  catalogue := 0

/-- Nodes under a strict and under a lenient configuration. -/
def twofold : World := { world with configs := #[telling false, telling true] }

theorem silent : twofold.Silent where
  types {id type} member := by
    rcases id with _ | id
    · have known : type ∈ Catalogue.builtIn := member
      simp only [Catalogue.builtIn, List.mem_cons, List.not_mem_nil, or_false] at known
      rcases known with rfl | rfl | rfl | rfl
      · exact .unbound Collection.silent_set
      · exact .unbound Collection.silent_array
      · exact .record
      · exact .primitive
    · simp [World.catalogue, twofold, world] at member
  fields {id compiled field} known member := by
    rcases id with _ | _ | id
    · cases known
    · cases known
      have sizes : ∀ heap value, (Collection.array.size heap value).Silent :=
        fun _ _ => Collection.silent_array.size
      simp only [fields, List.mem_cons, List.not_mem_nil, or_false] at member
      rcases member with rfl | rfl | rfl | rfl
      · exact ⟨.primitive, by simp⟩
      · refine ⟨.bound Collection.silent_array .primitive, ?_⟩
        simp only [List.forall_mem_cons, List.not_mem_nil, false_implies, implies_true, and_true]
        exact ⟨.bySize sizes, .bySize sizes⟩
      · exact ⟨.record, by simp⟩
      · exact ⟨.record, by simp⟩
    · simp [World.schema, twofold, world] at known
      cases known

theorem differInPolicy : twofold.DifferInPolicy (telling false) (telling true) :=
  ⟨rfl, rfl, rfl, rfl, rfl, rfl⟩

theorem alikeBy {one other : Configuration} : twofold.AlikeBy one other where
  types {id type} member := by
    rcases id with _ | id
    · have known : type ∈ Catalogue.builtIn := member
      simp only [Catalogue.builtIn, List.mem_cons, List.not_mem_nil, or_false] at known
      rcases known with rfl | rfl | rfl | rfl <;> trivial
    · simp [World.catalogue, twofold, world] at member
  fields {id compiled field} known member := by
    rcases id with _ | _ | id
    · cases known
    · cases known
      simp only [fields, List.mem_cons, List.not_mem_nil, or_false] at member
      rcases member with rfl | rfl | rfl | rfl <;> trivial
    · simp [World.schema, twofold, world] at known
      cases known

theorem reports : (telling false).Reports where
  keys _ := silent_pure
  finisher _ _ := (silent_record rfl).bind fun _ => silent_pure
  sink text before := ⟨.ok (), [.warned text], rfl, .warned text, by simp, rfl⟩

/-- A node that goes on to something which is no node. -/
def ending : Value :=
  .mapping [(.text "value", .text "a"), (.text "tags", .list [.text "b"]),
    (.text "next", .mapping [])]

def alone : Value :=
  .record nodeClass [("value", .text "a"), ("tags", .list [.text "b"]), ("home", .ref 0)]

end Nodes

/-- Two nodes one after the other are the same under both policies, and both times told of from the
inside out; a node that goes on to nothing is a node by leave of the policy only. -/
theorem strict_iff_lenient_without_warning_nodes :
    (∃ value events,
      (Nodes.twofold.validateAt (Nodes.telling true) (Nodes.twofold.schema 1) "" Nodes.pair).Yields
        [] (.ok value) events ∧ events.length = 2 ∧
      (Nodes.twofold.validateAt (Nodes.telling false) (Nodes.twofold.schema 1) ""
        Nodes.pair).Yields [] (.ok value) events) ∧
    (Nodes.twofold.validateAt (Nodes.telling true) (Nodes.twofold.schema 1) ""
      Nodes.ending).Yields [] (.ok Nodes.alone)
        [.warned "skipping nested object next.value - missing required property",
          .finished Nodes.alone] ∧
    ∀ value after,
      ¬ (Nodes.twofold.validateAt (Nodes.telling false) (Nodes.twofold.schema 1) ""
        Nodes.ending).Yields [] (.ok value) after := by
  have whole := (strict_iff_lenient_without_warning Nodes.silent).1 _ _ Nodes.differInPolicy
    Nodes.alikeBy Nodes.reports 1 ""
  have ran : (Nodes.twofold.validateAt (Nodes.telling true) (Nodes.twofold.schema 1) ""
      Nodes.ending).Yields [] (.ok Nodes.alone)
        [.warned "skipping nested object next.value - missing required property",
          .finished Nodes.alone] := rfl
  refine ⟨⟨_, _, rfl, rfl, ?_⟩, ran, ?_⟩
  · refine (whole Nodes.pair [] _ _).mpr ⟨rfl, _, rfl, ?_⟩
    simp [Event.isWarning]
  · intro value after yielded
    obtain ⟨given, events, grown, quiet⟩ := (whole Nodes.ending [] value after).mp yielded
    obtain ⟨_, rfl⟩ := ran.unique given
    rw [List.nil_append] at grown
    subst grown
    have first := quiet (.warned "skipping nested object next.value - missing required property")
      (by simp)
    cases first

end Exemplar
