import Exemplar.Proofs.FieldBreakdowns
import Exemplar.Proofs.BuiltIn

/-!
What becomes of faults. Each field keeps the faults of its own processing and turns them into
failures, which are passed on and left out as all failures are. So a run gets a fault past itself
only where the hook that finishes the outermost record raises it, or where a field of that record has
a fault to report and asking for the words of it raises the other one.
-/

namespace Exemplar

namespace Validation

/-- An object that is validated against a schema: to a depth, at a place, after a trace. -/
structure Call where
  limit : Nat
  schema : Schema
  location : String
  data : Value
  before : Trace

/-- A field that is processed: to a depth, in an object at a place, after a trace. -/
structure Visit where
  limit : Nat
  location : String
  entries : List (Value × Value)
  field : Field
  before : Trace

/-- The names that lead to a field, from the outermost object inwards. -/
def Visit.path (visit : Visit) : String := fieldPath visit.location visit.field.name

/-- The outermost object of a run. -/
def outermost (world : World) (schema : Schema) (location : String) (data : Value)
    (before : Trace) : Call :=
  ⟨limit world data, schema, location, data, before⟩

/-- What the report of a field that breaks down goes into the log as. -/
def Visit.line (visit : Visit) : Event :=
  .logged .debug s!"Unexpected error validating '{visit.path}'"

/-- The policy leaves nothing out on account of what fails inside the field. -/
def Carries (config : Configuration) (field : Field) : Prop :=
  config.lenient = true → field.type = .record ∧ field.declaration.mode ≠ .optional

section Faults

variable [telling : Fault.Telling]

def Call.run (call : Call) (world : World) (config : Configuration) : Run Outcome :=
  validateTo world config call.limit call.schema call.location call.data

namespace Visit

def settle (visit : Visit) (world : World) (config : Configuration) : Run FieldOutcome :=
  settleField (parseTo world config visit.limit) world config visit.field visit.path visit.entries

def guarded (visit : Visit) (world : World) (config : Configuration) : Run FieldOutcome :=
  guardField (parseTo world config visit.limit) world config visit.field visit.path visit.entries

/-- An operation of the field's own processing raises the fault. -/
def Raises (visit : Visit) (world : World) (config : Configuration) (fault : Fault)
    (after : Trace) : Prop :=
  FieldRaises world config visit.limit visit.field visit.path visit.entries visit.before fault after

end Visit

/-- The fields of an object are settled up to one of them. -/
inductive Call.Reaches (world : World) (config : Configuration) (call : Call) : Visit → Prop
  | intro {compiled entries done field rest stored middle} :
      call.schema.compiled = some compiled → world.heap.look call.data = .mapping entries →
      compiled.fields = done ++ field :: rest →
      (settleFields (parseTo world config call.limit) world config call.location entries done
        []).Yields call.before (.ok stored) middle →
      Reaches world config call ⟨call.limit, call.location, entries, field, middle⟩

/-- Parsing a value to a depth comes to an object: the value itself, or one that is inside of its
elements. -/
inductive Enters (world : World) (config : Configuration) :
    Nat → ValueType → String → Value → Value → Trace → Call → Prop
  | object {limit path sample value before recordClass fields} :
      world.heap.look sample = .record recordClass fields →
      Enters world config (limit + 1) .record path sample value before
        ⟨limit, world.schema recordClass.number, path, value, before⟩
  | inside {limit type collection element path sample value before inner representative index
      gathered item rest reached fitted call} :
      OfCollection type collection element →
      ComesTo (parseTo world config limit) world config collection element path sample value before
        inner representative index gathered item rest reached →
      (inner.fit world.heap item representative).Yields reached .toParse fitted →
      Enters world config limit inner (elementPath path index) representative item fitted call →
      Enters world config (limit + 1) type path sample value before call

/-- Validating an object comes to a field: one of its own, or one of an object inside of those. Each
field on the way in is of the given kind. -/
inductive Visits (world : World) (config : Configuration) (through : Field → Prop) :
    Call → Visit → Prop
  | own {call visit} : call.Reaches world config visit → Visits world config through call visit
  | inside {call visit value middle inner last} : call.Reaches world config visit →
      Admitted world config visit.field visit.path visit.entries visit.before value .toParse
        middle →
      Enters world config visit.limit visit.field.type visit.path visit.field.sample value middle
        inner →
      through visit.field → Visits world config through inner last →
      Visits world config through call last

variable {world : World} {config : Configuration} {before after : Trace} {fail : Failure}

theorem parseTo_record_eq {limit : Nat} {path : String} {sample value : Value}
    {recordClass : RecordClass} {fields : List (String × Value)}
    (shape : world.heap.look sample = .record recordClass fields) :
    parseTo world config (limit + 1) .record path sample value =
      (Call.mk limit (world.schema recordClass.number) path value before).run world config :=
  parseObject_of_record shape

/-- Failures of every kind are treated alike: a failure ends the validation of the object and the
parsing of the collection it arises in and is then the failure of the field, up to an element or an
optional object that the policy leaves out for it. -/
structure PassesFailuresOn (world : World) (config : Configuration) : Prop where
  object {call : Call} {visit : Visit} {fail after} : call.Reaches world config visit →
    (visit.guarded world config).Yields visit.before (.failed fail) after →
    (call.run world config).Yields call.before (.error fail) after
  nested {limit path sample value before recordClass fields fail after} :
    world.heap.look sample = .record recordClass fields →
    (Call.run ⟨limit, world.schema recordClass.number, path, value, before⟩ world config).Yields
      before (.error fail) after →
    (parseTo world config (limit + 1) .record path sample value).Yields before (.error fail) after
  skippedElement {limit type collection element path sample value before inner representative index
      gathered item rest reached fitted read fail after} :
    OfCollection type collection element →
    ComesTo (parseTo world config limit) world config collection element path sample value before
      inner representative index gathered item rest reached →
    (inner.fit world.heap item representative).Yields reached .toParse fitted →
    (parseTo world config limit inner (elementPath path index) representative item).Yields fitted
      (.error fail) read →
    config.lenient = true →
    (config.sink.report s!"skipping element {fail.path} - {fail.message}").Yields read () after →
    (parseTo world config (limit + 1) type path sample value).run.run before =
      (parseElements (parseTo world config limit) world.heap config collection inner representative
        path (index + 1) gathered rest).run.run after
  failedElement {limit type collection element path sample value before inner representative index
      gathered item rest reached fitted fail after} :
    OfCollection type collection element →
    ComesTo (parseTo world config limit) world config collection element path sample value before
      inner representative index gathered item rest reached →
    (inner.fit world.heap item representative).Yields reached .toParse fitted →
    (parseTo world config limit inner (elementPath path index) representative item).Yields fitted
      (.error fail) after →
    config.lenient = false →
    (parseTo world config (limit + 1) type path sample value).Yields before (.error fail) after
  skippedObject {visit : Visit} {value middle fail read after} :
    Admitted world config visit.field visit.path visit.entries visit.before value .toParse middle →
    (parseTo world config visit.limit visit.field.type visit.path visit.field.sample value).Yields
      middle (.error fail) read →
    Pardons config visit.field →
    (config.sink.report s!"skipping nested object {fail.path} - {fail.message}").Yields read ()
      after →
    (visit.settle world config).Yields visit.before .omitted after
  failedField {visit : Visit} {value middle fail after} :
    Admitted world config visit.field visit.path visit.entries visit.before value .toParse middle →
    (parseTo world config visit.limit visit.field.type visit.path visit.field.sample value).Yields
      middle (.error fail) after →
    ¬ Pardons config visit.field →
    (visit.settle world config).Yields visit.before (.failed fail) after

theorem Call.Reaches.fails {call : Call} {visit : Visit} (reaches : call.Reaches world config visit)
    (failed : (visit.guarded world config).Yields visit.before (.failed fail) after) :
    (call.run world config).Yields call.before (.error fail) after := by
  cases reaches with
  | @intro compiled entries _ _ _ _ _ known mapping order settled =>
      have ended : (settleFields (parseTo world config call.limit) world config call.location
          entries compiled.fields []).Yields call.before (.error fail) after := by
        rw [order]
        exact (settleFields_append settled).trans (failed.bind.trans rfl)
      simp only [Call.run, validateTo, validateWith, mapping]
      exact (Run.yields_of_ok (demandCompiled_ok.mpr known)).bind.trans (ended.bind.trans rfl)

/-- A field that breaks down takes the object along. -/
theorem Call.Reaches.breaks {call : Call} {visit : Visit} {fault : Fault}
    (reaches : call.Reaches world config visit)
    (broke : (visit.guarded world config).Breaks visit.before fault after) :
    (call.run world config).Breaks call.before fault after := by
  cases reaches with
  | intro known mapping order settled =>
      exact validateWith_breaks.mpr (.field known mapping order settled broke)

namespace Visit

variable {visit : Visit} {given value stored : Value} {fit : Fit} {found fitted middle : Trace}
  {fault : Fault} {reason text : String}

section Given

variable (sought : Sought world config visit.field visit.path visit.entries visit.before
  (.inr given) found)

include sought

theorem guarded_of_refused
    (compared : (visit.field.type.fit world.heap
      (substitute world.heap visit.field.declaration given) visit.field.sample).Yields found
        (.refused reason) after) :
    (visit.guarded world config).Yields visit.before (.failed (.type visit.path reason)) after :=
  guardField_of_settleField ((inputOf_of_sought sought).bind.trans (compared.bind.trans rfl))

section Fitting

variable (compared : (visit.field.type.fit world.heap
    (substitute world.heap visit.field.declaration given) visit.field.sample).Yields found fit
      fitted)
  (fits : ∀ reason, fit ≠ .refused reason)

include compared fits

/-- The failure of a check fails the field, at the place of the field. -/
theorem guarded_of_failure
    (failed : (visit.field.firstFailure world.heap
      (substitute world.heap visit.field.declaration given)).Yields fitted (.failure fail) after) :
    (visit.guarded world config).Yields visit.before (.failed (fail.movedTo visit.path)) after :=
  guardField_of_settleField ((sought.run_eq compared fits).trans (failed.bind.trans rfl))

/-- Checks that break down, or answer with what cannot be located, fail the field with what broke
them. -/
theorem guarded_of_unlocated
    (broke : (visit.field.firstFailure world.heap (substitute world.heap visit.field.declaration
      given) >>= Field.locate world.heap visit.path).Breaks fitted fault after)
    (told : fault.told = .ok text) :
    (visit.guarded world config).Yields visit.before (.failed (.unknown visit.path text))
      (after ++ [visit.line]) := by
  have checked : (checkField (parseTo world config visit.limit) world config visit.field visit.path
      (substitute world.heap visit.field.declaration given) fit).Breaks fitted fault after := by
    simp only [checkField, Run.breaks_bind] at broke ⊢
    rcases broke with broke | ⟨verdict, middle, checked, unlocated⟩
    · exact .inl broke
    · exact .inr ⟨verdict, middle, checked, .inl unlocated⟩
  exact guardField_yields_iff.mpr
    (.inr ⟨fault, after, text, (sought.run_eq compared fits).trans checked, told, rfl, rfl⟩)

/-- A check that breaks down fails the field with what broke it. -/
theorem guarded_of_fault
    (broke : (visit.field.firstFailure world.heap
      (substitute world.heap visit.field.declaration given)).Breaks fitted fault after)
    (told : fault.told = .ok text) :
    (visit.guarded world config).Yields visit.before (.failed (.unknown visit.path text))
      (after ++ [visit.line]) :=
  guarded_of_unlocated sought compared fits broke.bind told

end Fitting

end Given

theorem guarded_of_parsed
    (admitted : Admitted world config visit.field visit.path visit.entries visit.before value
      .toParse middle)
    (parsed : (parseTo world config visit.limit visit.field.type visit.path visit.field.sample
      value).Yields middle (.ok stored) after) :
    (visit.guarded world config).Yields visit.before (.stored stored) after :=
  guardField_of_settleField (admitted.run_eq.trans (parsed.bind.trans rfl))

end Visit

theorem passesFailuresOn (world : World) (config : Configuration) :
    PassesFailuresOn world config where
  object reaches failed := reaches.fails failed
  nested shape failed := by
    rw [parseTo_record_eq shape]
    exact failed
  skippedElement kind comes compared failed lenient reported := by
    rw [kind.parseTo_eq, comes.run_eq]
    exact (parseItem_skips compared failed lenient reported).bind
  failedElement kind comes compared failed strict := by
    rw [kind.parseTo_eq, Run.Yields, comes.run_eq]
    exact (parseItem_fails compared failed strict).bind.trans rfl
  skippedObject admitted failed pardoned reported := by
    unfold Pardons at pardoned
    refine admitted.run_eq.trans (failed.bind.trans ?_)
    dsimp only
    rw [if_pos pardoned]
    exact reported.bind.trans rfl
  failedField admitted failed held := by
    unfold Pardons at held
    refine admitted.run_eq.trans (failed.bind.trans ?_)
    dsimp only
    rw [if_neg held]
    rfl

section Carrying

variable {call : Call} {visit : Visit}

theorem Enters.carries {limit : Nat} {type : ValueType} {path : String} {sample value : Value}
    (open_ : config.lenient = true → type = .record)
    (enters : Enters world config limit type path sample value before call)
    (failed : (call.run world config).Yields call.before (.error fail) after) :
    (parseTo world config limit type path sample value).Yields before (.error fail) after := by
  induction enters with
  | object shape =>
      rw [parseTo_record_eq shape]
      exact failed
  | inside kind comes compared _ ih =>
      have strict : config.lenient = false := by
        cases lenient : config.lenient with
        | false => rfl
        | true =>
            cases open_ lenient
            cases kind
      exact (passesFailuresOn world config).failedElement kind comes compared
        (ih (by simp [strict]) failed) strict

/-- A field that fails at any depth fails the whole run, if the policy leaves nothing out on the
way. -/
theorem Visits.carries (visits : Visits world config (Carries config) call visit)
    (failed : (visit.guarded world config).Yields visit.before (.failed fail) after) :
    (call.run world config).Yields call.before (.error fail) after := by
  induction visits with
  | own reaches => exact reaches.fails failed
  | inside reaches admitted enters through _ ih =>
      have parsed := enters.carries (fun lenient => (through lenient).1) (ih failed)
      have held := fun pardons : Pardons config _ => (through pardons.1).2 pardons.2.1
      have settled := (passesFailuresOn world config).failedField admitted parsed held
      exact reaches.fails (guardField_of_settleField settled)

end Carrying

end Faults

end Validation

section Containment

open Validation

variable {world : World} {config : Configuration} {call : Call} {visit : Visit} {fault : Fault}
  {after : Trace}

/-- The fields of the object are all settled, and the hook that finishes the new record raises. -/
def Validation.Call.FinishRaises [Fault.Telling] (call : Call) (world : World)
    (config : Configuration) (fault : Fault) (after : Trace) : Prop :=
  ∃ compiled entries fields middle, call.schema.compiled = some compiled ∧
    world.heap.look call.data = .mapping entries ∧
    (settleFields (parseTo world config call.limit) world config call.location entries
      compiled.fields []).Yields call.before (.ok fields) middle ∧
    (config.finisher.finish world.heap (.record call.schema.recordClass fields)).Breaks middle fault
      after

/-- A field of the object has a fault to report, and asking for its words raises another one. -/
def Validation.Call.LeavesUntold [telling : Fault.Telling] (call : Call) (world : World)
    (config : Configuration) (fault : Fault) (after : Trace) : Prop :=
  ∃ visit raised middle, call.Reaches world config visit ∧
    visit.Raises world config raised middle ∧ telling.tell raised = .error fault ∧
    after = middle ++ [visit.line]

/-- What becomes of the faults that are raised while an object is validated. -/
structure Validation.ContainsFaults [telling : Fault.Telling] (world : World)
    (config : Configuration) (call : Call) : Prop where
  escapes : ∀ fault after, (call.run world config).Breaks call.before fault after ↔
    call.FinishRaises world config fault after ∨ call.LeavesUntold world config fault after
  raised : ∀ visit, Visits world config (fun _ => True) call visit → ∀ fault after,
    (visit.settle world config).Breaks visit.before fault after ↔
      visit.Raises world config fault after
  told : ∀ visit, Visits world config (fun _ => True) call visit → ∀ fault text after,
    visit.Raises world config fault after → telling.tell fault = .ok text →
    (visit.guarded world config).Yields visit.before
      (.failed ⟨visit.path, "UNKNOWN", if text = "" then fault.kind else text⟩)
      (after ++ [visit.line])
  untold : ∀ visit, Visits world config (fun _ => True) call visit → ∀ fault other after,
    visit.Raises world config fault after → telling.tell fault = .error other →
    (visit.guarded world config).Breaks visit.before other (after ++ [visit.line])
  carried : ∀ visit, Visits world config (Carries config) call visit → ∀ fault text after,
    visit.Raises world config fault after → telling.tell fault = .ok text →
    (call.run world config).Yields call.before
      (.error ⟨visit.path, "UNKNOWN", if text = "" then fault.kind else text⟩)
      (after ++ [visit.line])
  passed : PassesFailuresOn world config

section Telling

variable [telling : Fault.Telling]

theorem Fault.told_of_ok {text : String} (known : telling.tell fault = .ok text) :
    fault.told = .ok (if text = "" then fault.kind else text) := by
  rw [Fault.told, known]
  rfl

theorem Fault.told_error_iff {other : Fault} :
    fault.told = .error other ↔ telling.tell fault = .error other := by
  rw [Fault.told]
  cases telling.tell fault <;> simp [bind, Except.bind, pure, Except.pure]

theorem Validation.Visit.Raises.guarded_told {text : String}
    (raises : visit.Raises world config fault after) (known : telling.tell fault = .ok text) :
    (visit.guarded world config).Yields visit.before
      (.failed ⟨visit.path, "UNKNOWN", if text = "" then fault.kind else text⟩)
      (after ++ [visit.line]) :=
  guardField_yields_iff.mpr
    (.inr ⟨fault, after, _, settleField_breaks.mpr raises, Fault.told_of_ok known, rfl, rfl⟩)

theorem Validation.Visit.guarded_breaks_iff :
    (visit.guarded world config).Breaks visit.before fault after ↔
      ∃ raised middle, visit.Raises world config raised middle ∧
        telling.tell raised = .error fault ∧ after = middle ++ [visit.line] := by
  refine guardField_breaks_iff.trans (exists_congr fun raised => exists_congr fun middle => ?_)
  rw [settleField_breaks, Fault.told_error_iff]
  rfl

theorem Validation.Call.run_breaks_iff {compiled : Compiled}
    (known : call.schema.compiled = some compiled) :
    (call.run world config).Breaks call.before fault after ↔
      call.FinishRaises world config fault after ∨ call.LeavesUntold world config fault after := by
  refine validateWith_breaks.trans ?_
  constructor
  · intro raises
    cases raises with
    | uncompiled _ undeclared => simp [Schema.demandCompiled, known] at undeclared
    | @field _ entries _ inner _ _ reached _ _ declared mapping order settled broke =>
        let visit : Visit := ⟨call.limit, call.location, entries, inner, reached⟩
        have broke : (visit.guarded world config).Breaks visit.before fault after := broke
        obtain ⟨raised, middle, raises, untold, rfl⟩ := Visit.guarded_breaks_iff.mp broke
        exact .inr ⟨visit, raised, middle, .intro declared mapping order settled, raises, untold,
          rfl⟩
    | finish declared mapping settled broke =>
        exact .inl ⟨_, _, _, _, declared, mapping, settled, broke⟩
  · intro either
    rcases either with ⟨_, _, _, _, declared, mapping, settled, broke⟩ |
      ⟨visit, raised, middle, reaches, raises, untold, rfl⟩
    · exact .finish declared mapping settled broke
    · exact validateWith_breaks.mp
        (reaches.breaks (Visit.guarded_breaks_iff.mpr ⟨raised, middle, raises, untold, rfl⟩))

/-- A fault gets past a run where the finished record breaks down in the hook that new records go
through, or where the words of a fault that a field of the outermost object has to report are asked
for in vain. Wherever else a fault is raised, the innermost field that is being processed fails with
the words of the fault, or with its kind if there are none. That failure is passed on as all failures
are, and is that of the run if the policy leaves nothing out on the way. So the hook alone gets a
fault past a run if every fault has its words. -/
theorem validateAt_contains_faults {schema : Schema} {compiled : Compiled}
    (known : schema.compiled = some compiled) (location : String) (data : Value) (before : Trace) :
    ContainsFaults world config (outermost world schema location data before) ∧
    ((∀ fault, ∃ text, telling.tell fault = .ok text) → ∀ fault after,
      (world.validateAt config schema location data).Breaks before fault after ↔
        (outermost world schema location data before).FinishRaises world config fault after) := by
  have escapes {fault : Fault} {after : Trace} := @Call.run_breaks_iff world config
    (outermost world schema location data before) fault after telling compiled known
  refine ⟨?_, fun words fault after => escapes.trans (or_iff_left ?_)⟩
  · exact {
      escapes := fun _ _ => escapes
      raised := fun _ _ _ _ => settleField_breaks
      told := fun _ _ _ _ _ raises known => raises.guarded_told known
      untold := fun _ _ fault _ after raises untold =>
        Visit.guarded_breaks_iff.mpr ⟨fault, after, raises, untold, rfl⟩
      carried := fun _ visits _ _ _ raises known => visits.carries (raises.guarded_told known)
      passed := passesFailuresOn world config }
  · rintro ⟨_, raised, _, _, _, untold, _⟩
    obtain ⟨text, known⟩ := words raised
    cases known.symm.trans untold

end Telling

end Containment

/-- A hook that every new node makes raise a fault without a text. -/
def Nodes.bursting : Configuration where
  finisher := ⟨some "burst", fun _ _ => throw (.raised "Burst" "")⟩
  catalogue := 0

/-- A node by itself breaks down as it is finished; inside another node it is the next one that
fails. -/
theorem validateAt_contains_faults_nodes :
    (Nodes.world.validateAt Nodes.bursting Nodes.schema ""
      (.mapping [(.text "value", .text "a"), (.text "tags", .list [.text "b"])])).Breaks []
        (.raised "Burst" "") [] ∧
    (Nodes.world.validateAt Nodes.bursting Nodes.schema "" Nodes.pair).Yields []
      (.error ⟨"next", "UNKNOWN", "Burst"⟩)
      [.logged .debug "Unexpected error validating 'next'"] := by
  have known : Nodes.schema.compiled = some (.of Nodes.fields 0 (.ref 0)) := rfl
  constructor
  · obtain ⟨_, whole⟩ := @validateAt_contains_faults Nodes.world Nodes.bursting Fault.plain _ _
      known "" (.mapping [(.text "value", .text "a"), (.text "tags", .list [.text "b"])]) []
    exact (whole (fun fault => ⟨fault.text, rfl⟩) (.raised "Burst" "") []).mpr
      ⟨_, _, [("value", .text "a"), ("tags", .list [.text "b"]), ("home", .ref 0)], [], known, rfl,
        rfl, rfl⟩
  · obtain ⟨contains, _⟩ := @validateAt_contains_faults Nodes.world Nodes.bursting Fault.plain _ _
      known "" Nodes.pair []
    have reached : Validation.Call.Reaches Nodes.world Nodes.bursting
        (Validation.outermost Nodes.world Nodes.schema "" Nodes.pair [])
        ⟨Validation.limit Nodes.world Nodes.pair, "", _, Nodes.fields[2], []⟩ :=
      .intro rfl rfl (show Nodes.fields = Nodes.fields.take 2 ++ Nodes.fields[2] ::
        Nodes.fields.drop 3 from rfl) rfl
    have raises := (contains.raised _ (.own reached) (.raised "Burst" "") []).mp rfl
    exact contains.carried _ (.own reached) _ _ _ raises rfl

/-! A till has an amount, whose check looks for something that is not there, and a chest has a till in
a field with an empty name. -/

namespace Tills

def tillClass : RecordClass := ⟨1, "Till", [1, 0]⟩

def chestClass : RecordClass := ⟨2, "Chest", [2, 0]⟩

def lookUp : CustomCheck := ⟨"look up", fun _ _ => throw (.raised "KeyError" "'amount'")⟩

def amount : Field :=
  ⟨"amount", { sample := .int 0, custom := some lookUp }, .int 0, .primitive .fallback,
    [.custom lookUp]⟩

def till : Field := ⟨"", { sample := .ref 0 }, .ref 0, .record, []⟩

def schema (recordClass : RecordClass) (field : Field) (sample : Value) : Schema where
  recordClass := recordClass
  body := [(field.name, field.declaration)]
  declarations := [(field.name, field.declaration)]
  ancestry := recordClass.lineage
  config := none
  compiled := some (.of [field] 0 sample)

def world : World where
  heap := ⟨#[.record tillClass [("amount", .int 0)], .record chestClass [("", .ref 0)]]⟩
  schemas := #[.root, schema tillClass amount (.ref 0), schema chestClass till (.ref 1)]
  configs := #[{ catalogue := 0 }]
  catalogues := #[Catalogue.builtIn]
  default := 0

/-- The keys that are not there are too long to be written. -/
abbrev mute : Fault.Telling where
  tell
    | .raised "KeyError" _ => .error (.longNumeral none)
    | fault => .ok fault.text

def data : Value := .mapping [(.text "amount", .int 1)]

end Tills

open Tills in
/-- No hook raises anything, and yet a fault gets past the run, because the words of another one
cannot be had; and a field inside of a field without a name is reported as if it stood by itself. -/
theorem fault_without_words_escapes :
    (world.config 0).finisher = .identity ∧
    (@World.validateAt mute world (world.config 0) (world.schema 1) "" data).Breaks []
      (.longNumeral none) [.logged .debug "Unexpected error validating 'amount'"] ∧
    (world.validateAt (world.config 0) (world.schema 2) "" (.mapping [(.text "", data)])).Yields []
      (.error ⟨"amount", "UNKNOWN", "'amount'"⟩)
      [.logged .debug "Unexpected error validating 'amount'"] :=
  ⟨rfl, rfl, rfl⟩

end Exemplar
