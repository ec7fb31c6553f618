import Exemplar.Proofs.Containment
import Exemplar.Proofs.Rechecks
import Exemplar.Proofs.StandIns

/-!
Fields without input. The mode of a field decides what becomes of it: a required field fails, an
optional one is left out, and for the others the sample, a copy of it or an empty collection stands
in. What stands in fits by its shape but is checked like any input, and an empty collection may well
fail a check that the sample passes.
-/

namespace Exemplar

section Copies

variable {heap : Heap} {sample value : Value}

theorem Measure.length_copied (written : heap.Written value) :
    Measure.length heap value.copied = Measure.length heap value := by
  unfold Measure.length
  rw [Heap.length?_copied written, Heap.qualifiedName, Heap.qualifiedName,
    Heap.look_copied_of_written written]
  cases heap.look value <;> rfl

/-- Checks tell no copy of a sized sample from the sample. -/
theorem Check.apply_copied {check : Check} {name : String} {declaration : Declaration}
    {checks : List Check} (sized : heap.hasSize sample = true) (written : heap.Written sample)
    (unlimited : declaration.allowed = none) (own : declaration.custom = none)
    (compiled : Check.compile heap sample declaration .plain = .ok checks) (member : check ∈ checks) :
    check.apply name heap sample.copied = check.apply name heap sample := by
  cases asked_of_compile compiled member with
  | bySize _ _ => simp only [apply, Measure.plain, Measure.length_copied written]
  | byValue _ unsized => cases sized.symm.trans unsized
  | allowed declared _ => cases unlimited.symm.trans declared
  | matching _ _ => simp only [apply, Heap.display_copied written]
  | noRegex _ _ _ => rfl
  | integer _ unsized _ => cases sized.symm.trans unsized
  | custom declared => cases own.symm.trans declared

end Copies

/-- What can stand in for the input of the field passes its checks: the sample and, in the place of a
list or a set, the empty collection. A container that can change can be copied, nothing of the
sample waits to be written out, and the class of a record extends itself. -/
structure Field.Supplied (heap : Heap) (field : Field) : Prop where
  passes : (field.firstFailure heap field.sample).Always (· = .pass)
  empty {kind elements} : heap.gathering? field.sample = some (kind, elements) →
    (field.firstFailure heap (kind.wrap [])).Always (· = .pass)
  copyable : heap.Copyable field.sample
  written : heap.Written field.sample
  own {recordClass fields} : heap.look field.sample = .record recordClass fields →
    recordClass.extends recordClass = true

section StandingIn

variable {heap : Heap} {field : Field} {value : Value}

theorem Field.Supplied.firstFailure_always (supplied : field.Supplied heap)
    (compiled : field.CompiledBy Catalogue.builtIn heap)
    (unlimited : field.declaration.allowed = none) (own : field.declaration.custom = none)
    (stands : heap.StandsIn field.sample value) :
    (field.firstFailure heap value).Always (· = .pass) := by
  cases stands with
  | itself _ => exact supplied.passes
  | empty shape => exact supplied.empty shape
  | copied shareable =>
      have plain : field.type.measure = .plain := by
        have typed := compiled.typed
        generalize field.type = type at typed
        cases typed with
        | plain _ _ | record _ => rfl
        | unchecked shape | elements shape _ => cases shareable.bare.symm.trans shape
      have checked := compiled.checked
      rw [plain] at checked
      have same : field.firstFailure heap field.sample.copied =
          field.firstFailure heap field.sample :=
        firstFailureOf_congr fun check member => Check.apply_copied shareable.sized
          supplied.written unlimited own checked member
      rw [same]
      exact supplied.passes

namespace Validation

variable {world : World} {config : Configuration} {path : String} {limit : Nat}

/-- What stands in fits the sample: a record as it stands, all else to be parsed, and that
succeeds. -/
theorem fit_standIn (supplied : field.Supplied world.heap)
    (compiled : field.CompiledBy Catalogue.builtIn world.heap)
    (stands : world.heap.StandsIn field.sample value) :
    field.type.fit world.heap value field.sample = pure .settled ∨
      field.type.fit world.heap value field.sample = pure .toParse ∧
      (parseTo world config (limit + 1) field.type path field.sample value).Always fun outcome =>
        ∃ stored, outcome = .ok stored := by
  cases nested : world.heap.isRecord field.sample with
  | false =>
      have whole (index : Nat) : field.sample ≠ .copy index := supplied.written _ .self index
      obtain ⟨fits, parses⟩ := takes_standIn compiled.typed nested whole stands
      exact .inr ⟨fits, fun before => ⟨_, before, parses _ _ _ before, value, rfl⟩⟩
  | true =>
      left
      have typed := compiled.typed
      generalize field.type = type at typed
      cases typed with
      | record shape =>
          have itself : value = field.sample := by
            cases stands with
            | itself _ => rfl
            | copied shareable => cases nested.symm.trans shareable.plain
            | empty gathered => simp [Heap.gathering?, shape] at gathered
          rw [itself]
          simp only [ValueType.fit, shape, Value.isInstanceOf, supplied.own shape, if_true]
      | plain _ single => cases nested.symm.trans single
      | unchecked gathered | elements gathered _ =>
          cases nested.symm.trans (Heap.isRecord_of_gathering gathered)

theorem settleValue_standIn (supplied : field.Supplied world.heap)
    (compiled : field.CompiledBy Catalogue.builtIn world.heap)
    (unlimited : field.declaration.allowed = none) (own : field.declaration.custom = none)
    (stands : world.heap.StandsIn field.sample value) :
    (settleValue (parseTo world config (limit + 1)) world config field path value).Always
      fun outcome => ∃ stored, outcome = .stored stored := by
  have passed := supplied.firstFailure_always compiled unlimited own stands
  have located : (Field.locate world.heap path .pass).Always (· = none) := Run.always_pure rfl
  unfold settleValue
  rcases fit_standIn supplied compiled stands with settled | ⟨toParse, parsed⟩
  · rw [settled, pure_bind]
    refine passed.follow (located.follow ?_)
    exact Run.always_pure ⟨value, rfl⟩
  · rw [toParse, pure_bind]
    refine passed.follow (located.follow (parsed.bind ?_))
    rintro _ ⟨stored, rfl⟩
    exact Run.always_pure ⟨stored, rfl⟩

section Absent

variable {entries : List (Value × Value)} {key : String} {before middle after : Trace}
  {outcome : FieldOutcome}

/-- Where the input has nothing under the key, it is for the mode to say what becomes of the field. -/
theorem guardField_of_absent {parse : Parse}
    (named : (config.keys.keyOf field.name).Yields before key middle)
    (absent : entryUnder key entries = .null)
    (ran : (withoutInput world field path >>= settleInput parse world config field path).Yields
      middle outcome after) :
    (guardField parse world config field path entries).Yields before outcome after := by
  refine guardField_yields.mpr (.inl ?_)
  rw [settleField_eq_keyOf]
  refine named.bind.trans ?_
  rw [absent, fromEntry_null]
  exact ran

theorem guardField_required {parse : Parse}
    (named : (config.keys.keyOf field.name).Yields before key middle)
    (absent : entryUnder key entries = .null) (mode : field.declaration.mode = .required) :
    (guardField parse world config field path entries).Yields before (.failed (.missing path))
      middle :=
  guardField_of_absent named absent (by rw [withoutInput, mode]; rfl)

theorem guardField_optional {parse : Parse}
    (named : (config.keys.keyOf field.name).Yields before key middle)
    (absent : entryUnder key entries = .null) (mode : field.declaration.mode = .optional) :
    (guardField parse world config field path entries).Yields before .omitted middle :=
  guardField_of_absent named absent (by rw [withoutInput, mode]; rfl)

theorem guardField_defaulted (supplied : field.Supplied world.heap)
    (compiled : field.CompiledBy Catalogue.builtIn world.heap)
    (unlimited : field.declaration.allowed = none) (own : field.declaration.custom = none)
    (named : (config.keys.keyOf field.name).Yields before key middle)
    (absent : entryUnder key entries = .null) (mode : field.declaration.mode = .defaulted) :
    ∃ stored after, (guardField (parseTo world config (limit + 1)) world config field path
      entries).Yields before (.stored stored) after := by
  have stood := compiled.typed.standIn_always supplied.copyable
  have settled : (withoutInput world field path >>=
      settleInput (parseTo world config (limit + 1)) world config field path).Always
        fun outcome => ∃ stored, outcome = .stored stored := by
    rw [withoutInput, mode]
    dsimp only
    rw [bind_assoc]
    refine stood.bind fun value stands => ?_
    rw [pure_bind]
    simp only [settleInput, substitute, unlimited]
    exact settleValue_standIn supplied compiled unlimited own stands
  obtain ⟨_, after, ran, stored, rfl⟩ := settled middle
  exact ⟨stored, after, guardField_of_absent named absent ran⟩

/-- Only fields are stored, each once at most. -/
theorem settleFields_names {parse : Parse} {location : String} {fields : List Field}
    {stored filled : Named Value}
    (ran : (settleFields parse world config location entries fields stored).Yields before
      (.ok filled) after) :
    ∃ more, filled = stored ++ more ∧ (Named.names more).Sublist (fields.map (·.name)) := by
  induction fields generalizing before stored with
  | nil =>
      obtain ⟨same, _⟩ := Run.yields_pure.mp ran
      cases same
      exact ⟨[], by simp, .slnil⟩
  | cons field rest ih =>
      simp only [settleFields, Run.yields_bind] at ran
      obtain ⟨outcome, middle, _, ran⟩ := ran
      cases outcome with
      | omitted =>
          obtain ⟨more, rfl, inside⟩ := ih ran
          exact ⟨more, rfl, inside.cons _⟩
      | stored value =>
          obtain ⟨more, rfl, inside⟩ := ih ran
          exact ⟨(field.name, value) :: more, by simp, inside.cons_cons _⟩
      | failed fail => simp at ran

section Finished

variable {call : Call} {visit : Visit} {compiled : Compiled} {value : Value} {fields : Named Value}

/-- A record that comes of the run is what the hook makes of all that was settled. -/
theorem Call.Reaches.finished (reaches : call.Reaches world config visit)
    (known : call.schema.compiled = some compiled)
    (ran : (call.run world config).Yields call.before (.ok value) after) :
    ∃ fields middle,
      (settleFields (parseTo world config call.limit) world config call.location visit.entries
        compiled.fields []).Yields call.before (.ok fields) middle ∧
      (config.finisher.finish world.heap (.record call.schema.recordClass fields)).Yields middle
        value after := by
  cases reaches with
  | intro declared mapping order settled =>
      simp only [Call.run, validateTo, validateWith, mapping, Run.yields_bind, Run.yields_lift,
        demandCompiled_ok] at ran
      obtain ⟨_, _, ⟨same, rfl⟩, result, last, filled, ran⟩ := ran
      cases known.symm.trans same
      cases result with
      | error fail => simp at ran
      | ok fields =>
          simp only [Run.yields_bind, Run.yields_pure] at ran
          obtain ⟨record, _, finished, ended, rfl⟩ := ran
          cases ended
          exact ⟨fields, last, filled, finished⟩

/-- What becomes of a field shows in what is settled. -/
theorem Call.Reaches.shows (reaches : call.Reaches world config visit)
    (known : call.schema.compiled = some compiled)
    (guarded : (visit.guarded world config).Yields visit.before outcome middle)
    (filled : (settleFields (parseTo world config call.limit) world config call.location
      visit.entries compiled.fields []).Yields call.before (.ok fields) after) :
    (outcome = .omitted → (compiled.fields.map (·.name)).Nodup →
      visit.field.name ∉ Named.names fields) ∧
    ∀ stored, outcome = .stored stored → (visit.field.name, stored) ∈ fields := by
  cases reaches with
  | intro declared _ order settled =>
      cases known.symm.trans declared
      rw [order, Run.Yields, settleFields_append settled, settleFields] at filled
      have later := guarded.bind.symm.trans filled
      obtain ⟨first, same, before⟩ := settleFields_names settled
      rw [List.nil_append] at same
      subst same
      constructor
      · rintro rfl distinct
        obtain ⟨more, rfl, inside⟩ := settleFields_names later
        rw [order, List.map_append, List.map_cons] at distinct
        obtain ⟨_, rests, apart⟩ := List.nodup_append.mp distinct
        rw [Named.names, List.map_append, List.mem_append]
        rintro (early | late)
        · exact apart _ (before.subset early) _ List.mem_cons_self rfl
        · exact (List.nodup_cons.mp rests).1 (inside.subset late)
      · rintro kept rfl
        obtain ⟨more, rfl, _⟩ := settleFields_names later
        simp

/-- What becomes of a field shows in the record that is finished. -/
theorem Call.Reaches.finishes (reaches : call.Reaches world config visit)
    (known : call.schema.compiled = some compiled)
    (guarded : (visit.guarded world config).Yields visit.before outcome middle)
    (ran : (call.run world config).Yields call.before (.ok value) after) :
    ∃ fields finished,
      (config.finisher.finish world.heap (.record call.schema.recordClass fields)).Yields finished
        value after ∧
      (outcome = .omitted → (compiled.fields.map (·.name)).Nodup →
        visit.field.name ∉ Named.names fields) ∧
      ∀ stored, outcome = .stored stored → (visit.field.name, stored) ∈ fields := by
  obtain ⟨fields, last, filled, finished⟩ := reaches.finished known ran
  exact ⟨fields, last, finished, reaches.shows known guarded filled⟩

end Finished

end Absent

end Validation

end StandingIn

open Validation in
/-- What a run does about a field whose key is absent from the input or holds null. If the field is
required, the run fails at its path with the failure for missing input. If it is optional, it does
not fail and is not in the record. If it has a default, it does not fail either and is in the
record, provided that what stands in for the input passes the checks of the field: the sample and,
in the place of a list or a set, the empty collection. -/
theorem World.validateAt_missing_input {world : World} {config : Configuration} {schema : Schema}
    {location : String} {data : Value} {compiled : Compiled} {visit : Visit} {key : String}
    {before middle : Trace} (builtIn : world.BuiltIn schema)
    (known : schema.compiled = some compiled)
    (reaches : Call.Reaches world config ⟨limit world data, schema, location, data, before⟩ visit)
    (named : (config.keys.keyOf visit.field.name).Yields visit.before key middle)
    (absent : entryUnder key visit.entries = .null) :
    (visit.field.declaration.mode = .required →
      (visit.guarded world config).Yields visit.before (.failed (.missing visit.path)) middle ∧
      (world.validateAt config schema location data).Yields before (.error (.missing visit.path))
        middle) ∧
    (visit.field.declaration.mode = .optional →
      (visit.guarded world config).Yields visit.before .omitted middle ∧
      ((compiled.fields.map (·.name)).Nodup → ∀ value after,
        (world.validateAt config schema location data).Yields before (.ok value) after →
        ∃ fields finished, (config.finisher.finish world.heap
            (.record schema.recordClass fields)).Yields finished value after ∧
          visit.field.name ∉ Named.names fields)) ∧
    (visit.field.declaration.mode = .defaulted → visit.field.declaration.allowed = none →
      visit.field.declaration.custom = none → visit.field.Supplied world.heap →
      ∃ stored last, (visit.guarded world config).Yields visit.before (.stored stored) last ∧
        ∀ value after,
          (world.validateAt config schema location data).Yields before (.ok value) after →
          ∃ fields finished, (config.finisher.finish world.heap
              (.record schema.recordClass fields)).Yields finished value after ∧
            (visit.field.name, stored) ∈ fields) := by
  refine ⟨fun mode => ?_, fun mode => ?_, fun mode unlimited own supplied => ?_⟩
  · have guarded : (visit.guarded world config).Yields visit.before
        (.failed (.missing visit.path)) middle := guardField_required named absent mode
    exact ⟨guarded, reaches.fails guarded⟩
  · have guarded : (visit.guarded world config).Yields visit.before .omitted middle :=
      guardField_optional named absent mode
    refine ⟨guarded, fun distinct value after ran => ?_⟩
    obtain ⟨fields, last, finished, out, _⟩ := reaches.finishes known guarded ran
    exact ⟨fields, last, finished, out rfl distinct⟩
  · have guarded : ∃ stored last,
        (visit.guarded world config).Yields visit.before (.stored stored) last := by
      cases reaches with
      | @intro _ _ _ field _ _ _ declared _ order _ =>
          have member : field ∈ compiled.fields := by
            cases known.symm.trans declared
            rw [order]
            simp
          exact guardField_defaulted supplied (builtIn.fields .root known member) unlimited own named
            absent mode
    obtain ⟨stored, last, guarded⟩ := guarded
    refine ⟨stored, last, guarded, fun value after ran => ?_⟩
    obtain ⟨fields, final, finished, _, kept⟩ := reaches.finishes known guarded ran
    exact ⟨fields, final, finished, kept stored rfl⟩

/-! Posts with a title, settings that are copied from the sample where there are none, at least one
tag, and a log. The sample of the log holds a failure. -/

namespace Posts

def postClass : RecordClass := ⟨1, "Post", [1, 0]⟩

def heap : Heap :=
  ⟨#[.record postClass
      [("title", .text ""), ("settings", .ref 1), ("tags", .ref 2), ("log", .ref 3)],
    .mapping [(.text "language", .text "en")],
    .list [.text ""],
    .mapping [(.text "last", .failure (.missing "title"))]]⟩

def settings : Field :=
  ⟨"settings", { sample := .ref 1, mode := .defaulted, minimum := some (.int 1) }, .ref 1,
    .primitive .fallback, [.bySize .below "size" (.int 1) Measure.length]⟩

def tags : Field :=
  ⟨"tags", { sample := .ref 2, mode := .defaulted, minimum := some (.int 1) }, .ref 2,
    .bound .array (.primitive .fallback),
    [.bySize .below "length" (.int 1) Collection.array.size]⟩

def log : Field :=
  ⟨"log", { sample := .ref 3, mode := .defaulted }, .ref 3, .primitive .fallback, []⟩

def fields : List Field :=
  [⟨"title", { sample := .text "" }, .text "", .primitive .fallback, []⟩, settings, tags, log]

def declarations : List (String × Declaration) :=
  fields.map fun field => (field.name, field.declaration)

def schema : Schema where
  recordClass := postClass
  body := declarations
  declarations := declarations
  ancestry := [1, 0]
  config := none
  compiled := some (.of fields 0 (.ref 0))

def world : World where
  heap := heap
  schemas := #[.root, schema]
  configs := #[{ catalogue := 0 }]
  catalogues := #[Catalogue.builtIn]
  default := 0

theorem selfContained : world.SelfContained schema (.of fields 0 (.ref 0)) where
  known := rfl
  classes := by
    intro field member recordClass stands
    simp only [fields, List.mem_cons, List.not_mem_nil, or_false] at member
    rcases member with rfl | rfl | rfl | rfl
    · rcases stands with shape | ⟨shape, _⟩ <;> cases shape
    · rcases stands with shape | ⟨shape, _⟩ <;> cases shape
    · rcases stands with shape | ⟨shape, inner⟩ <;> cases shape
      rcases inner with shape | ⟨shape, _⟩ <;> cases shape
    · rcases stands with shape | ⟨shape, _⟩ <;> cases shape

theorem builtIn : world.BuiltIn schema := by
  refine selfContained.builtIn ?_
  simp only [fields, List.forall_mem_cons, List.not_mem_nil, false_implies, implies_true, and_true]
  exact ⟨⟨[], [], rfl⟩, ⟨[], [], rfl⟩, ⟨[], [], rfl⟩, ⟨[], [], rfl⟩⟩

/-- What is given for a post without settings and tags. -/
def untagged : Value := .mapping [(.text "title", .text "a")]

def tagged : Value :=
  .mapping [(.text "title", .text "a"), (.text "tags", .list [.text "b"])]

theorem reaches_title : Validation.Call.Reaches world (world.config 0)
    ⟨Validation.limit world (.mapping []), schema, "", .mapping [], []⟩
    ⟨Validation.limit world (.mapping []), "", [], fields[0], []⟩ :=
  .intro rfl rfl (List.nil_append fields).symm rfl

theorem reaches_settings : Validation.Call.Reaches world (world.config 0)
    ⟨Validation.limit world untagged, schema, "", untagged, []⟩
    ⟨Validation.limit world untagged, "", [(.text "title", .text "a")], settings, []⟩ :=
  .intro rfl rfl (show fields = fields.take 1 ++ settings :: fields.drop 2 from rfl) rfl

/-- The empty list that stands in for tags is too short. -/
theorem tags_fail (before : Trace) :
    (tags.firstFailure world.heap (.list [])).Yields before
      (.failure (.minimum "tags" "length of 0 < minimum length of 1")) before := by
  have count : numeral (0 : Nat) = .ok "0" := numeral_of_writable Number.writable_zero
  have limit : world.heap.display (.int 1) = .ok "1" :=
    Heap.display_int (Number.writable_of_lt_ten (by decide : 1 < 10))
  have measured : (Collection.array.size world.heap (.list [])).Yields before 0 before := rfl
  have ordered : world.heap.order .below (.int (0 : Nat)) (.int 1) = .ok true := rfl
  have failed : ((Check.bySize .below "length" (.int 1) Collection.array.size).apply "tags"
      world.heap (.list [])).Yields before
        (.failure (.minimum "tags" "length of 0 < minimum length of 1")) before := by
    refine measured.bind.trans ((Run.yields_of_ok ordered).bind.trans ?_)
    rw [if_pos rfl]
    refine (Run.yields_of_ok count).bind.trans ((Run.yields_of_ok limit).bind.trans ?_)
    exact Run.yields_pure.mpr ⟨rfl, rfl⟩
  exact failed.bind.trans rfl

theorem supplied : settings.Supplied world.heap where
  passes before := ⟨.pass, before, rfl, rfl⟩
  empty shape := by cases shape
  copyable _ := by rfl
  written := by
    intro inner held index
    cases held with
    | self => simp [settings]
    | @inside _ part _ member held =>
        have text : ∃ text, part = .text text := by
          rcases List.mem_cons.mp member with same | later
          · exact ⟨_, same⟩
          · exact ⟨_, List.mem_singleton.mp later⟩
        obtain ⟨text, rfl⟩ := text
        cases held with
        | self => simp
        | inside none _ => cases none
  own shape := by cases shape

end Posts

open Validation in
/-- A post without a title fails; one without settings has those of the sample. -/
theorem World.validateAt_missing_input_posts :
    (Posts.world.validateAt (Posts.world.config 0) Posts.schema "" (.mapping [])).Yields []
      (.error (.missing "title")) [] ∧
    ∃ stored last, (Visit.guarded ⟨limit Posts.world Posts.untagged, "",
        [(.text "title", .text "a")], Posts.settings, []⟩ Posts.world (Posts.world.config 0)).Yields
      [] (.stored stored) last := by
  have known : Posts.schema.compiled = some (.of Posts.fields 0 (.ref 0)) := rfl
  constructor
  · obtain ⟨required, _⟩ :=
      World.validateAt_missing_input Posts.builtIn known Posts.reaches_title rfl rfl
    exact (required rfl).2
  · obtain ⟨_, _, defaulted⟩ :=
      World.validateAt_missing_input Posts.builtIn known Posts.reaches_settings rfl rfl
    obtain ⟨stored, last, guarded, _⟩ := defaulted rfl rfl rfl Posts.supplied
    exact ⟨stored, last, guarded⟩

open Validation in
/-- Fields with a default that are as required do not fail where they have no input. -/
def World.DefaultsStand (required : Heap → Field → Prop) : Prop :=
  ∀ {world : World} {config : Configuration} {schema : Schema} {location : String} {data : Value}
    {visit : Visit} {key : String} {before middle : Trace}, world.BuiltIn schema →
    Call.Reaches world config ⟨limit world data, schema, location, data, before⟩ visit →
    required world.heap visit.field → visit.field.declaration.mode = .defaulted →
    (config.keys.keyOf visit.field.name).Yields visit.before key middle →
    entryUnder key visit.entries = .null → ∀ fail after,
    ¬ (visit.guarded world config).Yields visit.before (.failed fail) after

/-- It is not enough that the sample passes the checks of the field: the empty list that stands in
for it may be too short. Nor is it enough that the empty collection passes as well: a mapping that
holds a failure cannot be copied. -/
theorem standIn_can_fail :
    (¬ World.DefaultsStand fun heap field => field.declaration.allowed = none ∧
      field.declaration.fallback = none ∧ field.declaration.custom = none ∧
      (field.firstFailure heap field.sample).Always (· = .pass)) ∧
    ¬ World.DefaultsStand fun heap field => field.declaration.allowed = none ∧
      field.declaration.fallback = none ∧ field.declaration.custom = none ∧
      (field.firstFailure heap field.sample).Always (· = .pass) ∧
      ∀ kind elements, heap.gathering? field.sample = some (kind, elements) →
        (field.firstFailure heap (kind.wrap [])).Always (· = .pass) := by
  constructor
  · intro stand
    have reaches : Validation.Call.Reaches Posts.world (Posts.world.config 0)
        ⟨Validation.limit Posts.world Posts.untagged, Posts.schema, "", Posts.untagged, []⟩
        ⟨Validation.limit Posts.world Posts.untagged, "", [(.text "title", .text "a")], Posts.tags,
          []⟩ :=
      .intro rfl rfl (show Posts.fields = Posts.fields.take 2 ++ Posts.tags :: Posts.fields.drop 3
        from rfl) rfl
    refine stand Posts.builtIn reaches ⟨rfl, rfl, rfl, fun before => ⟨.pass, before, rfl, rfl⟩⟩ rfl
      rfl rfl (.minimum "tags" "length of 0 < minimum length of 1") []
      (Validation.guardField_of_absent rfl rfl ?_)
    have stood : (Validation.withoutInput Posts.world Posts.tags "tags").Yields []
        (.inr (.list [])) [] := rfl
    have fit : (Posts.tags.type.fit Posts.world.heap (.list []) Posts.tags.sample).Yields [] .toParse
        [] := rfl
    exact stood.bind.trans (fit.bind.trans ((Posts.tags_fail []).bind.trans rfl))
  · intro stand
    have reaches : Validation.Call.Reaches Posts.world (Posts.world.config 0)
        ⟨Validation.limit Posts.world Posts.tagged, Posts.schema, "", Posts.tagged, []⟩
        ⟨Validation.limit Posts.world Posts.tagged, "",
          [(.text "title", .text "a"), (.text "tags", .list [.text "b"])], Posts.log, []⟩ :=
      .intro rfl rfl (show Posts.fields = Posts.fields.take 3 ++ Posts.log :: [] from rfl) rfl
    refine stand Posts.builtIn reaches ⟨rfl, rfl, rfl, fun before => ⟨.pass, before, rfl, rfl⟩, ?_⟩
      rfl rfl rfl (.unknown "log" "Fail is immutable") _ rfl
    intro kind elements shape
    cases shape

end Exemplar
