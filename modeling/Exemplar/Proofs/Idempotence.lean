import Exemplar.Proofs.FieldBreakdowns
import Exemplar.Proofs.Restoring

/-!
Validation is idempotent. A record that a strict run makes of a document has a plain form, and that
is validated to an equal record, for every schema whose fields can be restored, in circles or not.
-/

namespace Exemplar

/-- Nothing is left out, no field goes by another name in the input, and a record stays what it
is. -/
structure Configuration.Verbatim (config : Configuration) : Prop where
  strict : config.lenient = false
  keys : config.keys.keyOf = KeyStrategy.identity.keyOf
  finisher : config.finisher.finish = Finisher.identity.finish

/-- All fields of the schemas that one schema uses can be restored, and no two fields of a schema
have one name, as is the case for every schema that is defined (`Session.faithful_after`). -/
structure World.Restorable (world : World) (root : Schema) : Prop where
  fields {schema compiled field} : world.Uses root schema → schema.compiled = some compiled →
    field ∈ compiled.fields → field.Restorable world.heap
  names {schema compiled} : world.Uses root schema → schema.compiled = some compiled →
    (compiled.fields.map (·.name)).Nodup

section Offers

variable {world : World} {config : Configuration} {type : ValueType} {field : Field} {path : String}
  {sample value given : Value} {entries : List (Value × Value)} {before after : Trace}

theorem offered_of_standIn (restorable : world.heap.Restorable sample)
    (typed : world.heap.Typed sample type) (bare : world.heap.isRecord sample = false)
    (stood : (type.standIn world.heap sample).Yields before value after) :
    world.heap.Offered value := by
  cases typed with
  | record shape => simp [Heap.isRecord, shape] at bare
  | @unchecked _ kind shape | @elements _ kind _ _ _ shape _ =>
      obtain ⟨rfl, _⟩ := Gathering.empty_yields.mp stood
      cases kind with
      | array => exact .inl (.list rfl (by simp))
      | set => exact .inr rfl
  | plain collection bare =>
      simp only [ValueType.standIn, Run.yields_lift] at stood
      obtain ⟨made, _⟩ := stood
      rcases restorable.of_plain collection bare with ⟨single, _⟩ | ⟨json, _, shape⟩
      · rw [Primitive.standIn, Heap.look_of_isScalar single] at made
        have same : sample = value := by
          cases sample <;> first | exact Except.ok.inj made | cases single
        exact .inl (.scalar (same ▸ single))
      · rw [Primitive.standIn, shape] at made
        simp only [Heap.deepCopy] at made
        split at made
        next => cases made
        next =>
          cases made
          exact .inl json.copied

theorem Heap.Json.entryUnder {data : Value} {key : String} (json : world.heap.Json data)
    (shape : world.heap.look data = .mapping entries) :
    world.heap.Json (Validation.entryUnder key entries) := by
  cases json with
  | scalar single =>
      rw [Heap.look_of_isScalar single] at shape
      subst shape
      cases single
  | list other _ => cases other.symm.trans shape
  | @object _ fields other _ all =>
      cases other.symm.trans shape
      rw [Validation.entryUnder, Heap.named?_object]
      cases found : Named.get? key fields with
      | none => exact .scalar rfl
      | some value => exact all _ (Named.mem_of_get? found)

theorem offered_of_sought (compiled : field.CompiledBy Catalogue.builtIn world.heap)
    (restorable : field.Restorable world.heap)
    (json : ∀ key, world.heap.Json (Validation.entryUnder key entries))
    (sought : Validation.Sought world config field path entries before (.inr given) after) :
    world.heap.Offered (Validation.substitute world.heap field.declaration given) := by
  rcases Validation.substitute_cases world.heap field.declaration given with same | replaced
  · rw [same]
    cases sought with
    | standIn _ _ defaulted stood =>
        exact offered_of_standIn restorable.sample compiled.typed (restorable.defaulted defaulted)
          stood
    | given _ _ => exact .inl (json _)
  · exact .inl (.scalar (restorable.fallback replaced).2)

/-- Null fits no sample that can be restored. -/
theorem ne_null_of_fit (restorable : world.heap.Restorable sample)
    (typed : world.heap.Typed sample type)
    (fit : (type.fit world.heap value sample).Yields before .toParse after) : value ≠ .null := by
  rintro rfl
  cases typed with
  | record shape =>
      obtain ⟨_, mapping⟩ := mapping_of_toParse (.record shape) shape fit
      cases mapping
  | @unchecked _ kind shape =>
      have accepted := accepted_of_toParse (.unchecked shape) shape fit
      cases kind <;> cases accepted
  | @elements _ kind _ _ _ shape inner =>
      have accepted := accepted_of_toParse (.elements shape inner) shape fit
      cases kind <;> cases accepted
  | plain collection single =>
      have same := shapeName_of_toParse (.plain collection single) collection single fit
      rcases restorable.of_plain collection single with ⟨scalar, present⟩ | ⟨_, _, shape⟩
      · exact (Heap.Offered.isScalar (.inl (.scalar rfl)) scalar present same).2 rfl
      · rw [Heap.shapeName, shape] at same
        simp [Heap.shapeName, Heap.look, Value.shapeName] at same

end Offers

section Fields

variable {events : Event → Prop} {world : World} {config : Configuration} {root : Schema}
  {parse : Parse} {field : Field} {path location : String} {entries : List (Value × Value)}
  {before after : Trace}

/-- What is stored for a field, the plain form of that, and what the field stores where it finds the
plain form, with such events only. -/
structure FieldRestores (events : Event → Prop) (world : World) (config : Configuration)
    (field : Field) (stored plain again : Value) : Prop where
  finite : world.heap.Finite stored
  made : world.heap.HasPlain stored plain
  json : world.heap.Json plain
  alike : world.heap.Alike stored again
  settles (limit : Nat) (path : String) (entries : List (Value × Value)) :
    world.heap.Within limit plain → Validation.entryUnder field.name entries = plain →
    (Validation.guardField (Validation.parseTo world config limit) world config field path
      entries).Gives events (.stored again)

/-- A field that finds a value which is let in and is parsed stores what it is parsed to. -/
theorem guardField_stores {parse : Parse} {plain again : Value}
    (keys : config.keys.keyOf = KeyStrategy.identity.keyOf) (present : plain ≠ .null)
    (found : Validation.entryUnder field.name entries = plain)
    (kept : Validation.substitute world.heap field.declaration plain = plain)
    (fits : ∀ trace, (field.type.fit world.heap plain field.sample).Yields trace .toParse trace)
    (passes : (field.firstFailure world.heap plain).Gives events .pass)
    (parses : (parse field.type path field.sample plain).Gives events (.ok again)) :
    (Validation.guardField parse world config field path entries).Gives events
      (.stored again) := by
  intro before
  obtain ⟨early, passed, some⟩ := passes before
  obtain ⟨late, parsed, others⟩ := parses (before ++ early)
  refine ⟨early ++ late, ?_, fun event member =>
    (List.mem_append.mp member).elim (some event) (others event)⟩
  have named : (config.keys.keyOf field.name).Yields before field.name before := by
    rw [keys]
    exact Run.yields_pure.mpr ⟨rfl, rfl⟩
  have sought : Validation.Sought world config field path entries before (.inr plain) before := by
    have given : Validation.Sought world config field path entries before
        (.inr (Validation.entryUnder field.name entries)) before := .given named (found ▸ present)
    rwa [found] at given
  have admitted : Validation.Admitted world config field path entries before plain .toParse
      (before ++ early) := by
    have taken := Validation.Admitted.intro sought (kept.symm ▸ fits before) (kept.symm ▸ passed)
    rwa [kept] at taken
  refine Validation.guardField_yields.mpr (.inl ?_)
  rw [Run.Yields, admitted.run_eq, ← List.append_assoc]
  exact parsed.bind

/-- An optional field for which there is nothing is left out. -/
theorem guardField_omits (keys : config.keys.keyOf = KeyStrategy.identity.keyOf)
    (absent : Validation.entryUnder field.name entries = .null)
    (optional : field.declaration.mode = .optional) :
    (Validation.guardField parse world config field path entries).Gives events .omitted := by
  refine Run.gives_of_yields fun trace => ?_
  have named : (config.keys.keyOf field.name).Yields trace field.name trace := by
    rw [keys]
    exact Run.yields_pure.mpr ⟨rfl, rfl⟩
  have sought : Validation.Sought world config field path entries trace (.inl .omitted) trace :=
    .omitted named absent optional
  refine Validation.guardField_yields.mpr (.inl ?_)
  rw [Validation.settleField_eq]
  exact (Validation.inputOf_of_sought sought).bind.trans rfl

theorem field_restores {stored : Value} (sound : ParseRestores world config root parse)
    (compiled : field.CompiledBy Catalogue.builtIn world.heap)
    (covered : Covered world root field.sample) (restorable : field.Restorable world.heap)
    (verbatim : config.Verbatim)
    (json : ∀ key, world.heap.Json (Validation.entryUnder key entries))
    (settles : Validation.Settles parse world config field path entries before (.stored stored)
      after) :
    ∃ plain again, FieldRestores (fun _ => False) world config field stored plain again := by
  have typed := compiled.typed
  cases settles with
  | unsought sought => cases sought
  | settled admitted =>
      obtain ⟨sought, fit, _⟩ := admitted
      have offered := offered_of_sought compiled restorable json sought
      have record := (record_of_settled typed fit).2
      simp [offered.isRecord] at record
  | @parsed value middle _ _ admitted parsed =>
      obtain ⟨offered, ⟨_, _, fit⟩, _, passed⟩ : world.heap.Offered value ∧
          (∃ found fitted, (field.type.fit world.heap value field.sample).Yields found .toParse
            fitted) ∧
          ∃ fitted, (field.firstFailure world.heap value).Yields fitted .pass middle := by
        obtain ⟨sought, fit, passed⟩ := admitted
        exact ⟨offered_of_sought compiled restorable json sought, ⟨_, _, fit⟩, _, passed⟩
      have present := ne_null_of_fit restorable.sample typed fit
      have mapping (record : world.heap.isRecord field.sample = true) :
          ∃ entries, world.heap.look value = .mapping entries := by
        unfold Heap.isRecord at record
        split at record
        next shape => exact mapping_of_toParse typed shape fit
        next => cases record
      have single (scalar : field.sample.isScalar = true) : value.isScalar = true := by
        have same := shapeName_of_toParse typed (Heap.gathering_of_isScalar scalar)
          (Heap.Json.scalar scalar).isRecord fit
        exact (offered.isScalar scalar restorable.sample.ne_null same).1
      obtain ⟨plain, again, restores⟩ :=
        sound typed covered restorable.sample offered fit parsed
      refine ⟨plain, again, restores.finite, restores.made, restores.json, restores.alike, ?_⟩
      -- The checks passed on the value as it was given, but now meet the plain form of what is
      -- stored for it; what they measure is the same.
      intro limit path entries within found
      have kept := Field.substitute_again compiled restorable restores.same single passed
      exact guardField_stores verbatim.keys restores.present found kept restores.fits
        (Field.passes_again compiled restorable present restores.present restores.same mapping
          passed)
        (restores.parses limit path within)

/-- Field by field: what is stored, the plain forms of that, and what is stored for those. -/
inductive FieldsRestore (events : Event → Prop) (world : World) (config : Configuration) :
    List Field → Named Value → Named Value → Named Value → Prop
  | done : FieldsRestore events world config [] [] [] []
  | omitted {field : Field} {rest : List Field} {stored plains agains : Named Value} :
      field.declaration.mode = .optional →
      FieldsRestore events world config rest stored plains agains →
      FieldsRestore events world config (field :: rest) stored plains agains
  | stored {field : Field} {rest : List Field} {stored plains agains : Named Value}
      {value plain again : Value} : FieldRestores events world config field value plain again →
      FieldsRestore events world config rest stored plains agains →
      FieldsRestore events world config (field :: rest) ((field.name, value) :: stored)
        ((field.name, plain) :: plains) ((field.name, again) :: agains)

variable {fields : List Field} {stored plains agains : Named Value}

theorem FieldsRestore.made
    (restore : FieldsRestore events world config fields stored plains agains) :
    Named.Relates world.heap.HasPlain stored plains := by
  induction restore with
  | done => exact .nil
  | omitted _ _ ih => exact ih
  | stored restores _ ih => exact .cons ⟨rfl, restores.made⟩ ih

theorem FieldsRestore.alike
    (restore : FieldsRestore events world config fields stored plains agains) :
    Named.Relates world.heap.Alike stored agains := by
  induction restore with
  | done => exact .nil
  | omitted _ _ ih => exact ih
  | stored restores _ ih => exact .cons ⟨rfl, restores.alike⟩ ih

theorem FieldsRestore.finite
    (restore : FieldsRestore events world config fields stored plains agains) :
    ∀ field ∈ stored, world.heap.Finite field.2 := by
  induction restore with
  | done => simp
  | omitted _ _ ih => exact ih
  | stored restores _ ih => exact List.forall_mem_cons.mpr ⟨restores.finite, ih⟩

theorem FieldsRestore.json
    (restore : FieldsRestore events world config fields stored plains agains) :
    ∀ field ∈ plains, world.heap.Json field.2 := by
  induction restore with
  | done => simp
  | omitted _ _ ih => exact ih
  | stored restores _ ih => exact List.forall_mem_cons.mpr ⟨restores.json, ih⟩

theorem FieldsRestore.sublist
    (restore : FieldsRestore events world config fields stored plains agains) :
    (Named.names plains).Sublist (fields.map (·.name)) := by
  induction restore with
  | done => exact .slnil
  | omitted _ _ ih => exact ih.cons _
  | stored _ _ ih => exact ih.cons_cons _

/-- Run on the plain forms, the fields store again what they store for them, and nothing else. -/
theorem FieldsRestore.settles
    (restore : FieldsRestore events world config fields stored plains agains)
    {limit : Nat} (keys : config.keys.keyOf = KeyStrategy.identity.keyOf)
    (distinct : (fields.map (·.name)).Nodup)
    (within : ∀ field ∈ plains, world.heap.Within limit field.2)
    (held : ∀ field ∈ fields, Validation.entryUnder field.name entries =
      (Named.get? field.name plains).getD .null) (sofar : Named Value) :
    (Validation.settleFields (Validation.parseTo world config limit) world config location entries
      fields sofar).Gives events (.ok (sofar ++ agains)) := by
  induction restore generalizing sofar with
  | done => exact Run.gives_of_yields fun trace => Run.yields_pure.mpr ⟨by simp, rfl⟩
  | @omitted field rest stored plains agains optional restore ih =>
      obtain ⟨fresh, others⟩ := List.nodup_cons.mp distinct
      simp only [List.forall_mem_cons] at held
      have unknown : Named.get? field.name plains = none := by
        rw [Named.get?_eq_none_iff]
        intro known
        exact fresh (restore.sublist.subset known)
      have absent : Validation.entryUnder field.name entries = .null := by
        rw [held.1, unknown]
        rfl
      exact (guardField_omits keys absent optional).bind (ih others within held.2 sofar)
  | @stored field rest stored plains agains value plain again restores restore ih =>
      obtain ⟨fresh, others⟩ := List.nodup_cons.mp distinct
      simp only [List.forall_mem_cons] at held within
      have found : Validation.entryUnder field.name entries = plain := by
        rw [held.1]
        simp [Named.get?]
      -- What stands under this name is hidden from no later field, as none has the name.
      have later : ∀ other ∈ rest, Validation.entryUnder other.name entries =
          (Named.get? other.name plains).getD .null := by
        intro other member
        have apart : field.name ≠ other.name := by
          intro same
          exact fresh (List.mem_map.mpr ⟨other, member, same.symm⟩)
        rw [held.2 other member, Named.get?, if_neg apart]
      have settled := restores.settles limit (Validation.fieldPath location field.name) entries
        within.1 found
      have rested := ih others within.2 later (sofar ++ [(field.name, again)])
      rw [List.append_assoc] at rested
      exact settled.bind rested

theorem fields_restore (sound : ParseRestores world config root parse)
    (compiled : ∀ field ∈ fields, field.CompiledBy Catalogue.builtIn world.heap)
    (covered : ∀ field ∈ fields, Covered world root field.sample)
    (restorable : ∀ field ∈ fields, field.Restorable world.heap) (verbatim : config.Verbatim)
    (json : ∀ key, world.heap.Json (Validation.entryUnder key entries))
    (fills : Validation.Fills parse world config location entries fields before (.ok stored)
      after) :
    ∃ plains agains, FieldsRestore (fun _ => False) world config fields stored plains agains := by
  induction fields generalizing before stored with
  | nil =>
      cases fills
      exact ⟨[], [], .done⟩
  | cons field rest ih =>
      simp only [List.forall_mem_cons] at compiled covered restorable
      rcases fills.cons_ok with ⟨_, guarded, later⟩ | ⟨value, _, _, guarded, later, rfl⟩
      · have settles := Validation.settles_of_guardField guarded (by simp)
        obtain ⟨plains, agains, restore⟩ := ih compiled.2 covered.2 restorable.2 later
        exact ⟨plains, agains, .omitted settles.optional restore⟩
      · have settles := Validation.settles_of_guardField guarded (by simp)
        obtain ⟨plains, agains, restore⟩ := ih compiled.2 covered.2 restorable.2 later
        obtain ⟨plain, again, restores⟩ :=
          field_restores sound compiled.1 covered.1 restorable.1 verbatim json settles
        exact ⟨_, _, .stored restores restore⟩

end Fields

section Records

variable {events : Event → Prop} {world : World} {config : Configuration} {root schema : Schema}
  {parse : Parse} {location : String} {data stored sample value plain again : Value}
  {before after : Trace}

/-- What data is validated to, the plain form of that, and what the plain form is validated to, with
such events only. -/
structure RecordRestores (events : Event → Prop) (world : World) (config : Configuration)
    (schema : Schema) (stored plain again : Value) : Prop where
  finite : world.heap.Finite stored
  made : world.heap.HasPlain stored plain
  json : world.heap.Json plain
  mapping : ∃ entries, world.heap.look plain = .mapping entries
  alike : world.heap.Alike stored again
  validates (limit : Nat) (location : String) : world.heap.Within (limit + 1) plain →
    (Validation.validateTo world config limit schema location plain).Gives events (.ok again)

/-- A record is restored when its fields are. -/
theorem FieldsRestore.record {compiled : Compiled} {fields plains agains : Named Value}
    (restore : FieldsRestore events world config compiled.fields fields plains agains)
    (keys : config.keys.keyOf = KeyStrategy.identity.keyOf)
    (finisher : config.finisher.finish = Finisher.identity.finish)
    (known : schema.compiled = some compiled) (declared : (compiled.fields.map (·.name)).Nodup)
    (shape : world.heap.look stored = .record schema.recordClass fields) :
    RecordRestores events world config schema stored (.object plains)
      (.record schema.recordClass agains) := by
  have names : (Named.names plains).Nodup := declared.sublist restore.sublist
  have distinct : (Named.names fields).Nodup := restore.made.names ▸ names
  refine {
    finite := Heap.finite_of_parts ?_
    made := .record shape restore.made
    json := .object rfl names restore.json
    mapping := ⟨_, rfl⟩
    alike := .record shape rfl distinct restore.alike
    validates := ?_ }
  · intro part member
    rw [shape] at member
    obtain ⟨field, present, rfl⟩ := List.mem_map.mp member
    exact restore.finite field present
  · intro limit location within
    have inside : ∀ field ∈ plains, world.heap.Within limit field.2 := fun field member =>
      within field.2 (Value.mem_parts_object.mpr ⟨field, member, .inr rfl⟩)
    have held : ∀ field ∈ compiled.fields, Validation.entryUnder field.name
        (plains.map fun field => (.text field.1, field.2)) =
          (Named.get? field.name plains).getD .null := by
      intro field _
      rw [Validation.entryUnder, Heap.named?_object]
    have demanded := Validation.demandCompiled_ok.mpr known
    have settled : (Validation.settleFields (Validation.parseTo world config limit) world config
        location (plains.map fun field => (.text field.1, field.2)) compiled.fields []).Gives
          events (.ok agains) :=
      restore.settles keys declared inside held []
    have finishes (trace : Trace) : (config.finisher.finish world.heap
        (.record schema.recordClass agains)).Yields trace (.record schema.recordClass agains)
          trace := by
      rw [finisher]
      exact Run.yields_pure.mpr ⟨rfl, rfl⟩
    exact (Run.gives_of_yields fun _ => Run.yields_of_ok demanded).bind
      (settled.bind ((Run.gives_of_yields finishes).bind
        (Run.gives_of_yields fun _ => Run.yields_pure.mpr ⟨rfl, rfl⟩)))

theorem record_restores (builtIn : world.BuiltIn root) (used : world.Uses root schema)
    (restorable : world.Restorable root) (verbatim : config.Verbatim)
    (sound : ParseRestores world config root parse) (json : world.heap.Json data)
    (ran : (Validation.validateWith parse world config schema location data).Yields before
      (.ok stored) after) :
    ∃ plain again, RecordRestores (fun _ => False) world config schema stored plain again := by
  cases Validation.validates_of_validateWith ran with
  | settled shape _ =>
      have bare := json.isRecord
      simp [Heap.isRecord, shape] at bare
  | @built compiled entries fields middle _ _ known shape fills finished =>
      rw [verbatim.finisher] at finished
      obtain ⟨rfl, rfl⟩ := Run.yields_pure.mp finished
      obtain ⟨plains, agains, restore⟩ := fields_restore sound
        (fun _ => builtIn.fields used known) (fun _ => builtIn.covered used known)
        (fun _ => restorable.fields used known) verbatim (fun _ => json.entryUnder shape) fills
      exact ⟨_, _, restore.record verbatim.keys verbatim.finisher known
        (restorable.names used known) rfl⟩

/-- Records nested in fields and collections are restored as those at the top are. -/
theorem RecordRestores.nested {recordClass : RecordClass} {fields : Named Value}
    (restores : RecordRestores events world config (world.schema recordClass.number) stored plain
      again)
    (shape : world.heap.look sample = .record recordClass fields) :
    Restores events world config .record sample value stored plain again := by
  obtain ⟨entries, mapping⟩ := restores.mapping
  exact {
    finite := restores.finite
    made := restores.made
    json := restores.json
    present := by
      rintro rfl
      cases mapping
    fits := fun trace => by simp [ValueType.fit, shape, mapping, Value.isInstanceOf]
    parses := by
      intro limit path within
      obtain ⟨below, rfl⟩ := within.succ
      simp only [Validation.parseTo, Validation.parseObject_of_record shape]
      exact restores.validates below path within
    alike := restores.alike
    same := {
      scalar := by
        intro single
        rw [Heap.look_of_isScalar single] at shape
        subst shape
        cases single
      sized := by
        intro _ _ _ _ sized
        simp [Heap.hasSize, Heap.length?, shape] at sized } }

end Records

section Parsing

variable {world : World} {config : Configuration} {root : Schema}

theorem parseRestores_parseTo (builtIn : world.BuiltIn root) (restorable : world.Restorable root)
    (verbatim : config.Verbatim) (limit : Nat) :
    ParseRestores world config root (Validation.parseTo world config limit) := by
  -- Samples can lead back to their own schema; only the depth gets smaller on the way in.
  induction limit using Nat.strongRecOn with
  | ind limit ih =>
      intro type path sample value fitting fitted before stored after typed covered sampled offered
        fit ran
      obtain ⟨dropped, parses⟩ := parses_of_parseTo typed ran
      generalize finished : (Except.ok stored : Outcome) = outcome at parses
      cases parses with
      | plain collection single =>
          cases finished
          have same := shapeName_of_toParse typed collection single fit
          rcases sampled.of_plain collection single with ⟨scalar, present⟩ | ⟨_, _, shape⟩
          · exact ⟨_, _, restores_scalar scalar present typed offered same⟩
          · rw [Primitive.parse_of_not_int (by simp [shape])]
            obtain ⟨plain, restores⟩ := restores_object shape typed offered same
            exact ⟨plain, plain, restores⟩
      | @record below recordClass _ _ _ shape nested =>
          cases finished
          cases typed.unique (.record shape)
          obtain ⟨used, _⟩ := covered recordClass (.record shape)
          have json : world.heap.Json value := by
            obtain ⟨entries, mapping⟩ := mapping_of_toParse typed shape fit
            rcases offered with json | rfl
            · exact json
            · cases mapping
          obtain ⟨plain, again, restores⟩ :=
            record_restores builtIn used restorable verbatim (ih below (by omega)) json nested
          exact ⟨plain, again, restores.nested shape⟩
      | @unchecked _ kind _ grown shape listed gathered =>
          cases finished
          have accepted := accepted_of_toParse typed shape fit
          rcases sampled.of_gathering shape with ⟨_, present, _⟩ | ⟨rfl, _⟩
          · exact absurd rfl present
          · rw [Gathering.gather_array, List.nil_append, Except.ok.injEq] at gathered
            subst gathered
            obtain ⟨plains, restores⟩ := restores_unchecked shape typed offered accepted listed
            exact ⟨_, _, restores⟩
      | @passed below kind representative rest element values _ _ _ shape inner listed passes =>
          cases finished
          cases typed.unique (.elements shape inner)
          have accepted := accepted_of_toParse typed shape fit
          rcases sampled.of_gathering shape with ⟨rfl, _, singles⟩ | ⟨rfl, all⟩
          · obtain ⟨scalar, bare⟩ := singles representative List.mem_cons_self
            exact restores_set verbatim.strict shape scalar bare inner offered accepted listed
              passes
          · obtain ⟨members, plains, agains, rfl, restore⟩ :=
              elements_restore (ih below (by omega)) verbatim.strict inner
                (covered.representative shape) (all representative List.mem_cons_self)
                (offered.elements accepted listed) passes
            exact ⟨_, _, restores_list shape inner rfl accepted listed restore⟩

/-- What a strict run makes of a document has a plain form, and validating that gives an equal
record: nothing that is coerced on the way in, and nothing that was checked before it was coerced,
makes a difference the second time. -/
theorem validate_idempotent {schema : Schema} {data record : Value}
    {named : Option ConfigurationId} {before after : Trace}
    (builtIn : world.BuiltIn schema) (restorable : world.Restorable schema)
    (verbatim : (world.config (world.governing schema named)).Verbatim)
    (json : world.heap.Json data)
    (ran : (world.validate schema data named).Yields before record after) :
    ∃ plain again, world.heap.plain record = .ok plain ∧
      (∀ trace, (world.validate schema plain named).Yields trace again trace) ∧
      world.heap.equal record again = true := by
  simp only [World.validate, Run.yields_bind] at ran
  obtain ⟨outcome, middle, tried, demanded⟩ := ran
  cases outcome with
  | error fail => simp [World.demand] at demanded
  | ok stored =>
      obtain ⟨rfl, _⟩ := Run.yields_pure.mp demanded
      obtain ⟨plain, again, restores⟩ := record_restores builtIn .root restorable verbatim
        (parseRestores_parseTo builtIn restorable verbatim _) json tried
      refine ⟨plain, again, restores.made.plain_eq restores.finite, ?_,
        restores.alike.equal restores.finite⟩
      intro trace
      have within : world.heap.Within (Validation.limit world plain + 1) plain :=
        restores.json.finite.bounded.mono (by simp only [Validation.limit, Heap.reach]; omega)
      exact ((restores.validates _ "" within).untouched trace).bind.trans rfl

end Parsing

/-! Branches of a listed kind, with a count, at most two marks, and perhaps a next branch. -/

namespace Branches

def branchClass : RecordClass := ⟨1, "Branch", [1, 0]⟩

def heap : Heap :=
  ⟨#[.record branchClass
      [("kind", .text ""), ("count", .int 0), ("marks", .ref 1), ("next", .ref 0)],
    .set [.int 0]]⟩

def kinds : List Value := [.text "leaf", .text "twig"]

def declarations : List (String × Declaration) :=
  [("kind", { sample := .text "", allowed := some kinds, fallback := some (.text "leaf") }),
    ("count", { sample := .int 0 }),
    ("marks", { sample := .ref 1, maximum := some (.int 2) }),
    ("next", { sample := .ref 0, mode := .optional })]

def fields : List Field :=
  [⟨"kind", { sample := .text "", allowed := some kinds, fallback := some (.text "leaf") }, .text "",
      .primitive .fallback, [.allowed (.ofList heap kinds) "leaf,twig"]⟩,
    ⟨"count", { sample := .int 0 }, .int 0, .primitive .fallback, [.integer]⟩,
    ⟨"marks", { sample := .ref 1, maximum := some (.int 2) }, .ref 1,
      .bound .set (.primitive .fallback), [.bySize .above "size" (.int 2) Collection.set.size]⟩,
    ⟨"next", { sample := .ref 0, mode := .optional }, .ref 0, .record, []⟩]

def schema : Schema where
  recordClass := branchClass
  body := declarations
  declarations := declarations
  ancestry := [1, 0]
  config := none
  compiled := some (.of fields 0 (.ref 0))

def world : World where
  heap := heap
  schemas := #[.root, schema]
  configs := #[{ lenient := false, catalogue := 0 }]
  catalogues := #[Catalogue.builtIn]
  default := 0

def three : Value := .float (.finite false 3 0)

/-- The count is a float without a fraction, one mark is given twice, and the kind of the next
branch is not listed. -/
def data : Value :=
  .object [("kind", .text "twig"), ("count", three), ("marks", .list [.int 3, three, .int 4]),
    ("next", .object [("kind", .text "root"), ("count", .int 7), ("marks", .list [])])]

/-- What is stored for it: whole numbers, a set, and the kind that is the fallback. -/
def branch : Value :=
  .record branchClass [("kind", .text "twig"), ("count", .int 3),
    ("marks", .set [.int 3, .int 4]),
    ("next", .record branchClass [("kind", .text "leaf"), ("count", .int 7), ("marks", .set [])])]

theorem selfContained : world.SelfContained schema (.of fields 0 (.ref 0)) where
  known := rfl
  classes := by
    intro field member recordClass stands
    simp only [fields, List.mem_cons, List.not_mem_nil, or_false] at member
    rcases member with rfl | rfl | rfl | rfl
    · rcases stands with shape | ⟨shape, _⟩ <;> cases shape
    · rcases stands with shape | ⟨shape, _⟩ <;> cases shape
    · rcases stands with shape | ⟨shape, inner⟩ <;> cases shape
      rcases inner with shape | ⟨shape, _⟩ <;> cases shape
    · rcases stands with shape | ⟨shape, _⟩ <;> cases shape
      exact ⟨rfl, rfl⟩

theorem builtIn : world.BuiltIn schema := by
  refine selfContained.builtIn ?_
  simp only [fields, List.forall_mem_cons, List.not_mem_nil, false_implies, implies_true, and_true]
  exact ⟨⟨[], [], rfl⟩, ⟨[], [], rfl⟩, ⟨[], [], rfl⟩, ⟨[], [], rfl⟩⟩

theorem restorable : world.Restorable schema where
  fields reached known member := by
    refine selfContained.of_fields (fun field member => ?_) reached known member
    simp only [fields, List.mem_cons, List.not_mem_nil, or_false] at member
    rcases member with rfl | rfl | rfl | rfl
    · exact {
        sample := .scalar rfl (by simp)
        custom := rfl
        regex := by simp
        allowed := fun _ => rfl
        fallback := by
          rintro _ ⟨⟩
          exact ⟨rfl, rfl⟩
        defaulted := by simp }
    · exact {
        sample := .scalar rfl (by simp)
        custom := rfl
        regex := by simp
        allowed := by simp
        fallback := by simp
        defaulted := by simp }
    · have shape : world.heap.gathering? (.ref 1) = some (.set, [.int 0]) := rfl
      exact {
        sample := .set shape (by simp) (by simp [Value.isScalar])
        custom := rfl
        regex := by simp
        allowed := by simp
        fallback := by simp
        defaulted := by simp }
    · have shape : ∃ stored, world.heap.look (.ref 0) = .record branchClass stored := ⟨_, rfl⟩
      obtain ⟨_, shape⟩ := shape
      exact {
        sample := .record shape
        custom := rfl
        regex := by simp
        allowed := by simp
        fallback := by simp
        defaulted := by simp }
  names reached known := by
    rw [selfContained.eq_of_uses reached] at known
    cases known
    decide

theorem json : world.heap.Json data := by
  refine .object rfl (by decide) ?_
  simp only [List.forall_mem_cons, List.not_mem_nil, false_implies, implies_true, and_true]
  refine ⟨.scalar rfl, .scalar rfl, .list rfl ?_, .object rfl (by decide) ?_⟩
  · simp only [List.forall_mem_cons, List.not_mem_nil, false_implies, implies_true, and_true]
    exact ⟨.scalar rfl, .scalar rfl, .scalar rfl⟩
  · simp only [List.forall_mem_cons, List.not_mem_nil, false_implies, implies_true, and_true]
    exact ⟨.scalar rfl, .scalar rfl, .list rfl (by simp)⟩

end Branches

theorem validate_idempotent_branches :
    (Branches.world.validate Branches.schema Branches.data none).Yields [] Branches.branch [] ∧
    ∃ plain again, Branches.world.heap.plain Branches.branch = .ok plain ∧
      (∀ trace, (Branches.world.validate Branches.schema plain none).Yields trace again trace) ∧
      Branches.world.heap.equal Branches.branch again = true := by
  have ran : (Branches.world.validate Branches.schema Branches.data none).Yields [] Branches.branch
      [] := rfl
  have verbatim : (Branches.world.config
      (Branches.world.governing Branches.schema none)).Verbatim := ⟨rfl, rfl, rfl⟩
  exact ⟨ran, validate_idempotent Branches.builtIn Branches.restorable verbatim Branches.json ran⟩

end Exemplar
