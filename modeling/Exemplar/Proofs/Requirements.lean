import Exemplar.Proofs.Accounts
import Exemplar.Proofs.Location
import Exemplar.Proofs.MissingInput
import Exemplar.Proofs.Walks

/-!
What models require. The entry of a field in a model and the run on input that lacks the field go by
the same mode and the same default, with two exceptions: a model requires a record also where its
sample would stand in for it, and it knows nothing of the fallback that a run exchanges a default
for.
-/

namespace Exemplar

section Inside

variable {world : World} {root : Schema} {config : Configuration} {parse : Parse} {path : String}
  {fail : Failure} {before after : Trace}

theorem LiesIn.ne_of_element {position : Nat} {inner : String}
    (lies : LiesIn (Validation.elementPath path position) inner) : inner ≠ path := by
  obtain ⟨rest, rfl⟩ := lies
  intro same
  have lengths := congrArg String.length same
  simp only [Validation.elementPath_eq, String.length_append] at lengths
  have bracket : "[".length = 1 := rfl
  omega

/-- Parsing by the type of a sample fails at the value or inside of it, and inside of it where the
sample is no record. -/
def FailsInside (world : World) (root : Schema) (parse : Parse) : Prop :=
  ∀ {type path sample value before fail after}, world.heap.Typed sample type →
    Covered world root sample → (parse type path sample value).Yields before (.error fail) after →
    LiesIn path fail.path ∧ (world.heap.isRecord sample = false → fail.path ≠ path)

theorem liesIn_of_passes {kind : Gathering} {element : ValueType} {sample gathered : Value}
    {index dropped : Nat} {values : List Value} (inside : FailsInside world root parse)
    (typed : world.heap.Typed sample element) (covered : Covered world root sample)
    (passes : Validation.Passes parse world.heap config kind.collection element sample path index
      gathered values before (.error fail) dropped after) :
    ∃ position, LiesIn (Validation.elementPath path position) fail.path := by
  induction values generalizing index gathered before dropped with
  | nil => cases passes
  | cons value rest ih =>
      cases passes with
      | refused _ => exact ⟨index, .refl _⟩
      | settled _ _ passes | parsed _ _ _ passes | skipped _ _ _ _ passes => exact ih passes
      | failed _ parsed => exact ⟨index, (inside typed covered parsed).1⟩

theorem failsInside_parseTo (builtIn : world.BuiltIn root) (limit : Nat) :
    FailsInside world root (Validation.parseTo world config limit) := by
  induction limit using Nat.strongRecOn with
  | ind limit ih =>
      intro type path sample value before fail after typed covered ran
      obtain ⟨dropped, parses⟩ := parses_of_parseTo typed ran
      generalize finished : (Except.error fail : Outcome) = outcome at parses
      cases parses with
      | plain _ _ | unchecked _ _ _ => cases finished
      | @record below recordClass _ _ _ shape nested =>
          subst finished
          refine ⟨?_, fun single => by simp [Heap.isRecord, shape] at single⟩
          obtain ⟨used, _⟩ := covered recordClass (.record shape)
          cases Validation.validates_of_validateWith nested with
          | refused _ _ _ => exact .refl path
          | failed known _ fills =>
              obtain ⟨field, member, _, failed⟩ := fills.failed_field
              have typed := (builtIn.fields used known member).typed
              have covered := builtIn.covered used known member
              exact LiesIn.fieldPath.trans (Validation.liesIn_of_guardField
                (fun parsed => (ih below (by omega) typed covered parsed).1) failed)
      | @passed below _ _ _ _ _ _ _ _ shape element _ passes =>
          subst finished
          obtain ⟨position, lies⟩ :=
            liesIn_of_passes (ih below (by omega)) element (covered.representative shape) passes
          exact ⟨LiesIn.elementPath.trans lies, fun _ => lies.ne_of_element⟩

end Inside

section Defaults

variable {heap : Heap} {sample default : Value} {type : ValueType} {before after : Trace}

/-- What stands in for a sample depends on nothing else. -/
theorem Heap.Typed.standIn_eq (typed : heap.Typed sample type) :
    ∃ result : Except Fault Value, type.standIn heap sample = liftM result := by
  cases typed with
  | @unchecked _ kind _ | @elements _ kind _ _ _ _ _ =>
      exact ⟨.ok (kind.wrap []), by cases kind <;> rfl⟩
  | record _ => exact ⟨.ok sample, rfl⟩
  | plain _ _ => exact ⟨Primitive.standIn heap sample, rfl⟩

theorem Heap.Typed.standIn_unique {other : Value} {start finish : Trace}
    (typed : heap.Typed sample type) (one : (type.standIn heap sample).Yields before default after)
    (two : (type.standIn heap sample).Yields start other finish) : default = other := by
  obtain ⟨result, same⟩ := typed.standIn_eq
  rw [same, Run.yields_lift] at one two
  exact Except.ok.inj (one.1.symm.trans two.1)

/-- A default that has no elements parses as it is. -/
theorem Heap.Typed.parse_standIn {world : World} {config : Configuration} {limit : Nat}
    {path : String} {parsed : Value} {start finish : Trace}
    (typed : world.heap.Typed sample type) (single : world.heap.isRecord sample = false)
    (stood : (type.standIn world.heap sample).Yields before default after)
    (ran : (Validation.parseTo world config limit type path sample default).Yields start
      (.ok parsed) finish) : parsed = default := by
  cases gathered : world.heap.gathering? sample with
  | some gathering =>
      obtain ⟨kind, elements⟩ := gathering
      have emptied : default = kind.wrap [] := by
        obtain ⟨_, rfl⟩ | ⟨_, _, _, _, rfl, _⟩ := typed.of_gathering gathered <;>
          exact (Gathering.empty_yields.mp stood).1
      subst emptied
      cases limit with
      | zero => obtain ⟨_, rfl⟩ | ⟨_, _, _, _, rfl, _⟩ := typed.of_gathering gathered <;>
          simp [Validation.parseTo] at ran
      | succ limit =>
          exact Except.ok.inj ((Validation.parseTo_wrap_nil typed gathered).of_yields ran)
  | none =>
      cases typed.unique (.plain gathered single)
      simp only [Validation.parseTo_primitive, Run.yields_pure, Except.ok.injEq] at ran
      have stood := (Run.yields_lift.mp stood).1
      rw [ran.1]
      unfold Primitive.parse
      split
      next whole number shape other =>
        simp only [Primitive.standIn, shape, Except.ok.injEq] at stood
        rw [← stood, shape] at other
        cases other
      next => rfl

end Defaults

section Runs

open Validation

variable {world : World} {config : Configuration} {field : Field} {path key : String}
  {entries : List (Value × Value)} {limit : Nat} {before middle after : Trace}

/-- A run comes to the field where the input has nothing for it. -/
structure Misses (world : World) (config : Configuration) (schema : Schema) (field : Field)
    (call : Call) (visit : Visit) : Prop where
  root : call.schema = schema
  deep : call.limit = Validation.limit world call.data
  reaches : call.Reaches world config visit
  visited : visit.field = field
  absent : ∃ key middle, (config.keys.keyOf field.name).Yields visit.before key middle ∧
    entryUnder key visit.entries = .null

/-- The run fails at the field, with the code for missing input. -/
structure Demands (world : World) (config : Configuration) (call : Call) (visit : Visit)
    (fail : Failure) : Prop where
  code : fail.code = "REQ"
  path : fail.path = visit.path
  guarded : ∃ after, (visit.guarded world config).Yields visit.before (.failed fail) after ∧
    (call.run world config).Yields call.before (.error fail) after

/-- A field that has a default does not fail with the code for missing input at its own path, unless
its check of the application answers so. -/
theorem answered_of_defaulted {root : Schema} {fail : Failure} (builtIn : world.BuiltIn root)
    (compiled : field.CompiledBy Catalogue.builtIn world.heap)
    (covered : Covered world root field.sample)
    (mode : field.declaration.mode = .defaulted) (single : world.heap.isRecord field.sample = false)
    (failed : (guardField (parseTo world config limit) world config field path entries).Yields
      before (.failed fail) after) (code : fail.code = "REQ") (located : fail.path = path) :
    Answered world config field path entries before fail after := by
  rcases guardField_yields.mp failed with settled | ⟨_, _, _, told, _⟩
  · cases settles_of_settleField settled with
    | unsought sought =>
        cases sought with
        | missing _ _ required => cases mode.symm.trans required
    | refused _ _ => simp [Failure.type] at code
    | rejected sought compared fits decided =>
        exact answered_of_code compiled sought compared fits decided
          (by simp_all [Failure.movedTo, Check.codes])
    | failed _ parsed _ =>
        exact absurd located
          ((failsInside_parseTo builtIn limit compiled.typed covered parsed).2 single)
  · cases told
    simp [Failure.unknown] at code

/-- A default that is not exchanged for the fallback is what is stored. -/
theorem stored_of_defaulted {default stored : Value} {first last : Trace}
    (typed : world.heap.Typed field.sample field.type)
    (single : world.heap.isRecord field.sample = false)
    (stood : (field.type.standIn world.heap field.sample).Yields first default last)
    (kept : substitute world.heap field.declaration default = default)
    (named : (config.keys.keyOf field.name).Yields before key middle)
    (absent : entryUnder key entries = .null)
    (guarded : (guardField (parseTo world config limit) world config field path entries).Yields
      before (.stored stored) after) : stored = default := by
  have given {input : Value} {found : Trace}
      (sought : Sought world config field path entries before (.inr input) found) :
      input = default := by
    cases sought with
    | standIn _ _ _ again => exact typed.standIn_unique again stood
    | given again present =>
        cases (named.unique again).1
        exact absurd absent present
  cases settles_of_guardField guarded nofun with
  | unsought sought => cases sought
  | settled admitted =>
      obtain ⟨_, fit, _⟩ := admitted
      have nested := (record_of_settled typed fit).1
      rw [nested] at typed
      cases typed with
      | record shape => simp [Heap.isRecord, shape] at single
  | parsed admitted parsed =>
      obtain ⟨sought, _, _⟩ := admitted
      rw [given sought, kept] at parsed
      exact typed.parse_standIn single stood parsed

end Runs

section Models

variable {world : World} {root id : SchemaId} {start finish : Trace} {type : ModelType}
  {table : ModelTable} {model : Model} {field : Field} {entry : ModelField} {compiled : Compiled}

theorem Model.boundsOf_default {heap : Heap} {type : ModelType} {default : Option Value} :
    (boundsOf heap field type default).default = default := by
  unfold boundsOf
  split <;> rfl

/-- Whatever it takes for a generation to end, all models in its table are made field by field. -/
theorem Model.isModelOf_of_generate
    (generated : (generate world root).Yields start (type, table) finish)
    (finished : (id, some model) ∈ table) : IsModelOf world id model := by
  have reckons : Reckons world root fun _ => True :=
    ⟨fun _ _ => trivial, .inl trivial, fun _ _ _ _ _ _ => trivial⟩
  have arrives : Arrives world root [] (fun _ => True) (modelTo world (world.schemas.size + 1)) :=
    modelTo_arrives reckons (.inl trivial)
  exact ((arrives .refl ready_empty).of_yields generated).2.ready.finished finished

/-- What a model says of a field, against what becomes of the field in runs on input that lacks it.
-/
structure Model.Agrees (world : World) (schema : Schema) (field : Field) (entry : ModelField) :
    Prop where
  name : entry.name = field.name
  optional : field.declaration.mode = .optional → entry.default = some .null
  /-- If the model requires the field, so does the run, unless the field has a record for a
  default. -/
  required {config call visit} : Misses world config schema field call visit →
    entry.default = none → Demands world config call visit (.missing visit.path) ∨
      field.declaration.mode = .defaulted ∧ world.heap.isRecord field.sample = true
  /-- If the run requires the field, or if it has a record for a default, so does the model, unless
  it is for a check of the application that the run fails. -/
  demanded {config call visit fail} : Misses world config schema field call visit →
    Demands world config call visit fail ∨
      field.declaration.mode = .defaulted ∧ world.heap.isRecord field.sample = true →
    entry.default = none ∨
      ∃ after, Validation.Answered world config field visit.path visit.entries visit.before fail after
  /-- If the run succeeds, the default of the model is what is stored, unless it is exchanged for
  the fallback. -/
  stored {config call visit value after} : Misses world config schema field call visit →
    config.finisher.finish = Finisher.identity.finish → field.declaration.mode = .defaulted →
    world.heap.isRecord field.sample = false →
    (call.run world config).Yields call.before (.ok value) after →
    ∃ default fields, entry.default = some default ∧ value = .record schema.recordClass fields ∧
      (Validation.substitute world.heap field.declaration default = default →
        (field.name, default) ∈ fields)

theorem Model.Describes.agrees {schema : Schema} {plain : ModelType}
    (builtIn : world.BuiltIn schema) (known : schema.compiled = some compiled)
    (member : field ∈ compiled.fields) (describes : Describes world.heap field plain entry) :
    Agrees world schema field entry where
  name := describes.name
  optional mode := by
    cases describes with
    | optional _ => exact boundsOf_default
    | demanded other => rcases other with other | ⟨other, _⟩ <;> cases mode.symm.trans other
    | defaulted other _ _ => cases mode.symm.trans other
  required := by
    rintro config call visit misses demanded
    cases describes with
    | optional _ | defaulted _ _ _ => cases boundsOf_default.symm.trans demanded
    | demanded mode =>
        refine mode.imp_left fun mode => ?_
        obtain ⟨_, _, reaches, rfl, key, middle, named, absent⟩ := misses
        have guarded : (visit.guarded world config).Yields visit.before
            (.failed (.missing visit.path)) middle :=
          Validation.guardField_required named absent mode
        exact ⟨rfl, rfl, middle, guarded, reaches.fails guarded⟩
  demanded := by
    rintro config call visit fail misses either
    cases describes with
    | demanded _ => exact .inl boundsOf_default
    | optional mode =>
        rcases either with demands | ⟨other, _⟩
        · obtain ⟨_, _, reaches, rfl, key, middle, named, absent⟩ := misses
          obtain ⟨_, _, after, failed, _⟩ := demands
          exact nomatch (failed.unique (Validation.guardField_optional named absent mode)).1
        · cases mode.symm.trans other
    | defaulted mode single _ =>
        rcases either with demands | ⟨_, nested⟩
        · obtain ⟨_, _, reaches, rfl, key, middle, named, absent⟩ := misses
          obtain ⟨code, located, after, failed, _⟩ := demands
          exact .inr ⟨after, answered_of_defaulted builtIn (builtIn.fields .root known member)
            (builtIn.covered .root known member) mode single failed code located⟩
        · cases single.symm.trans nested
  stored := by
    rintro config call visit value after misses identity mode single ran
    obtain ⟨rfl, _, reaches, rfl, key, middle, named, absent⟩ := misses
    cases describes with
    | optional other => cases mode.symm.trans other
    | demanded other =>
        rcases other with other | ⟨_, nested⟩
        · cases mode.symm.trans other
        · cases single.symm.trans nested
    | @defaulted default _ _ _ _ stood =>
        have typed := (builtIn.fields .root known member).typed
        rcases (visit.guarded world config).yields_or_breaks visit.before with
          ⟨outcome, last, guarded⟩ | ⟨fault, last, broke⟩
        · obtain ⟨fields, final, finished, _, kept⟩ := reaches.finishes known guarded ran
          rw [identity] at finished
          obtain ⟨rfl, _⟩ := Run.yields_pure.mp finished
          refine ⟨default, fields, boundsOf_default, rfl, fun same => ?_⟩
          cases outcome with
          | omitted =>
              have optional := (Validation.settles_of_guardField guarded nofun).optional
              cases mode.symm.trans optional
          | failed fail => exact nomatch ((reaches.fails guarded).unique ran).1
          | stored stored =>
              have unchanged := stored_of_defaulted typed single stood same named absent guarded
              exact unchanged ▸ kept stored rfl
        · exact absurd broke Validation.guardField_breaks

/-- The entries of a generated model agree with the runs of the schema that lack their fields: in
the schema's order, each is required when such a run gives `REQ`, and else carries the default that
such a run stores; the fields whose sample is a record are the exception that `Agrees` states. -/
theorem Model.generate_agrees
    (generated : (generate world root).Yields start (type, table) finish)
    (finished : (id, some model) ∈ table) (builtIn : world.BuiltIn (world.schema id)) :
    ∃ compiled, (world.schema id).compiled = some compiled ∧
      List.Forall₂ (Agrees world (world.schema id)) compiled.fields model.fields := by
  obtain ⟨compiled, known, _, each⟩ := isModelOf_of_generate generated finished
  refine ⟨compiled, known, forall₂_imp_mem each fun field member entry _ described => ?_⟩
  obtain ⟨plain, describes⟩ := described
  exact describes.agrees builtIn known member

end Models

/-! Drafts with a count, tags for which there is a fallback, the draft that they come from, and
notes that may not be empty. -/

namespace Drafts

def draftClass : RecordClass := ⟨1, "Draft", [1, 0]⟩

def heap : Heap :=
  ⟨#[.record draftClass
      [("count", .int 3), ("tags", .ref 1), ("origin", .ref 0), ("notes", .ref 2)],
    .list [.text "a"], .list [.text ""]]⟩

/-- Takes no empty list for a given one. -/
def given : CustomCheck where
  label := "given"
  check := fun heap value =>
    match heap.look value with
    | .list [] => return .failure (.missing "")
    | _ => return .pass

def count : Field :=
  ⟨"count", { sample := .int 3, mode := .defaulted, integer := some (.bool false) }, .int 3,
    .primitive .fallback, []⟩

def tags : Field :=
  ⟨"tags",
    { sample := .ref 1, mode := .defaulted, allowed := some [.ref 1], fallback := some (.ref 1) },
    .ref 1, .bound .array (.primitive .fallback), [.allowed (.ofList heap [.ref 1]) "['a']"]⟩

def origin : Field :=
  ⟨"origin", { sample := .ref 0, mode := .defaulted }, .ref 0, .record, []⟩

def notes : Field :=
  ⟨"notes", { sample := .ref 2, mode := .defaulted, custom := some given }, .ref 2,
    .bound .array (.primitive .fallback), [.custom given]⟩

def fields : List Field := [count, tags, origin, notes]

def declarations : List (String × Declaration) :=
  fields.map fun field => (field.name, field.declaration)

def schema : Schema where
  recordClass := draftClass
  body := declarations
  declarations := declarations
  ancestry := [1, 0]
  config := none
  compiled := some (.of fields 0 (.ref 0))

def world : World where
  heap := heap
  schemas := #[.root, schema]
  configs := #[{ catalogue := 0 }]
  catalogues := #[Catalogue.builtIn]
  default := 0

theorem selfContained : world.SelfContained schema (.of fields 0 (.ref 0)) where
  known := rfl
  classes := by
    intro field member recordClass stands
    simp only [fields, List.mem_cons, List.not_mem_nil, or_false] at member
    rcases member with rfl | rfl | rfl | rfl
    · rcases stands with shape | ⟨shape, _⟩ <;> cases shape
    · rcases stands with shape | ⟨shape, inner⟩ <;> cases shape
      rcases inner with shape | ⟨shape, _⟩ <;> cases shape
    · rcases stands with shape | ⟨shape, _⟩ <;> cases shape
      exact ⟨rfl, rfl⟩
    · rcases stands with shape | ⟨shape, inner⟩ <;> cases shape
      rcases inner with shape | ⟨shape, _⟩ <;> cases shape

theorem builtIn : world.BuiltIn schema := by
  refine selfContained.builtIn ?_
  simp only [fields, List.forall_mem_cons, List.not_mem_nil, false_implies, implies_true, and_true]
  exact ⟨⟨[], [], rfl⟩, ⟨[], [], rfl⟩, ⟨[], [], rfl⟩, ⟨[], [], rfl⟩⟩

def model : Model where
  name := "DraftModel"
  fields :=
    [{ name := "count", type := .named "int", default := some (.int 3), description := none },
      { name := "tags", type := .list (.named "str"), default := some (.list []),
        description := none },
      { name := "origin", type := .mapping (.named "str") .any, default := none,
        description := none },
      { name := "notes", type := .list (.named "str"), default := some (.list []),
        description := none }]

theorem generated : ∃ after,
    (Model.generate world 1).Yields [] (.model 1, [(1, some model)]) after :=
  ⟨_, rfl⟩

/-- What is given for a draft with notes. -/
def noted : Value := .mapping [(.text "notes", .list [.text "x"])]

def draft : Value :=
  .record draftClass [("count", .int 3), ("tags", .list [.text "a"]), ("origin", .ref 0),
    ("notes", .list [.text "x"])]

def call (data : Value) : Validation.Call :=
  ⟨Validation.limit world data, schema, "", data, []⟩

def visit (data : Value) (entries : List (Value × Value)) (field : Field) : Validation.Visit :=
  ⟨Validation.limit world data, "", entries, field, []⟩

theorem misses_of_settled {data : Value} {entries : List (Value × Value)} {field : Field}
    {done rest : List Field} {stored : Named Value} (shape : heap.look data = .mapping entries)
    (order : fields = done ++ field :: rest)
    (settled : (Validation.settleFields (Validation.parseTo world (world.config 0)
      (Validation.limit world data)) world (world.config 0) "" entries done []).Yields []
        (.ok stored) [])
    (absent : Validation.entryUnder field.name entries = .null) :
    Misses world (world.config 0) schema field (call data) (visit data entries field) where
  root := rfl
  deep := rfl
  reaches := .intro rfl shape order settled
  visited := rfl
  absent := ⟨field.name, [], rfl, absent⟩

theorem misses_count : Misses world (world.config 0) schema count (call noted)
    (visit noted [(.text "notes", .list [.text "x"])] count) :=
  misses_of_settled rfl (List.nil_append fields).symm rfl rfl

theorem ran : ((call noted).run world (world.config 0)).Yields [] (.ok draft) [] := rfl

end Drafts

open Drafts in
/-- The model of drafts, and the count of a draft that was given with nothing but notes. -/
theorem Model.generate_agrees_drafts :
    (∃ after, (generate world 1).Yields [] (.model 1, [(1, some model)]) after) ∧
    List.Forall₂ (Agrees world schema) Drafts.fields model.fields ∧
    ∃ stored, draft = .record draftClass stored ∧ ("count", .int 3) ∈ stored := by
  obtain ⟨after, generated⟩ := Drafts.generated
  have finished : (1, some model) ∈ [(1, some model)] := List.mem_cons_self
  obtain ⟨compiled, known, agrees⟩ := generate_agrees generated finished builtIn
  cases known
  refine ⟨⟨after, generated⟩, agrees, ?_⟩
  obtain _ | ⟨agrees, _⟩ := agrees
  obtain ⟨default, stored, same, built, kept⟩ := agrees.stored misses_count rfl rfl rfl ran
  cases same
  exact ⟨stored, built, kept rfl⟩

/-- Models and runs treat such fields alike: a model requires what runs require, and it has for a
default what runs store. -/
def Model.TreatAlike (among : Heap → Field → Prop) : Prop :=
  ∀ {world : World} {root id : SchemaId} {start finish : Trace} {type : ModelType}
    {table : ModelTable} {model : Model} {compiled : Compiled},
    (generate world root).Yields start (type, table) finish → (id, some model) ∈ table →
    world.BuiltIn (world.schema id) → (world.schema id).compiled = some compiled →
    List.Forall₂ (fun field entry => among world.heap field →
      (field.firstFailure world.heap field.sample).Always (· = .pass) →
      ∀ {config call visit}, Misses world config (world.schema id) field call visit →
        config.finisher.finish = Finisher.identity.finish →
        (entry.default = none ↔ ∃ fail, Demands world config call visit fail) ∧
        (field.declaration.mode = .defaulted → ∀ value after,
          (call.run world config).Yields call.before (.ok value) after →
          ∃ default fields, entry.default = some default ∧
            value = .record (world.schema id).recordClass fields ∧ (field.name, default) ∈ fields))
      compiled.fields model.fields

open Drafts in
/-- A record stands in for missing input, and yet the model requires it. A default may be exchanged
for the fallback, of which the model does not know. And a check may fail the empty list that stands
in for input as if it were missing. -/
theorem Model.entries_can_differ :
    (¬ TreatAlike fun heap field => heap.isRecord field.sample = true) ∧
    (¬ TreatAlike fun heap field => heap.isRecord field.sample = false ∧
      field.declaration.custom = none) ∧
    ¬ TreatAlike fun heap field => heap.isRecord field.sample = false ∧
      field.declaration.fallback = none := by
  obtain ⟨after, generated⟩ := generated
  have finished : (1, some model) ∈ [(1, some model)] := List.mem_cons_self
  refine ⟨fun alike => ?_, fun alike => ?_, fun alike => ?_⟩
  · obtain _ | ⟨_, _ | ⟨_, _ | ⟨alike, _⟩⟩⟩ := alike generated finished builtIn rfl
    have passes : (origin.firstFailure heap origin.sample).Always (· = .pass) :=
      Run.always_pure rfl
    have misses : Misses world (world.config 0) schema origin (call noted)
        (visit noted [(.text "notes", .list [.text "x"])] origin) :=
      misses_of_settled rfl (show _ = Drafts.fields.take 2 ++ _ from rfl) rfl rfl
    obtain ⟨fail, _, _, after, failed, _⟩ := ((alike rfl passes misses rfl).1.mp rfl)
    have stored : ((visit noted [(.text "notes", .list [.text "x"])] origin).guarded world
        (world.config 0)).Yields [] (.stored (.ref 0)) [] := rfl
    exact nomatch (stored.unique failed).1
  · obtain _ | ⟨_, _ | ⟨alike, _⟩⟩ := alike generated finished builtIn rfl
    have passes : (tags.firstFailure heap tags.sample).Always (· = .pass) :=
      fun before => ⟨.pass, before, rfl, rfl⟩
    have misses : Misses world (world.config 0) schema tags (call noted)
        (visit noted [(.text "notes", .list [.text "x"])] tags) :=
      misses_of_settled rfl (show _ = Drafts.fields.take 1 ++ _ from rfl) rfl rfl
    obtain ⟨default, stored, same, built, member⟩ :=
      (alike ⟨rfl, rfl⟩ passes misses rfl).2 rfl draft [] ran
    cases same
    cases built
    simp [tags] at member
  · obtain _ | ⟨_, _ | ⟨_, _ | ⟨_, _ | ⟨alike, _⟩⟩⟩⟩ := alike generated finished builtIn rfl
    have passes : (notes.firstFailure heap notes.sample).Always (· = .pass) :=
      fun before => ⟨.pass, before, rfl, rfl⟩
    have misses : Misses world (world.config 0) schema notes (call (.mapping []))
        (visit (.mapping []) [] notes) :=
      misses_of_settled rfl (show _ = Drafts.fields.take 3 ++ _ from rfl) rfl rfl
    have demands : Demands world (world.config 0) (call (.mapping []))
        (visit (.mapping []) [] notes) (.missing "notes") := ⟨rfl, rfl, [], rfl, rfl⟩
    exact nomatch (alike ⟨rfl, rfl⟩ passes misses rfl).1.mpr ⟨_, demands⟩

end Exemplar
