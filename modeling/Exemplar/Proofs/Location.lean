import Exemplar.Proofs.Origins

/-!
Where a failure is located. A location is a sequence of steps that can be walked in the schema and in
the input side by side: a name leads to a declared field and to what the input holds under the key of
that field, a position leads to what the first element of a sample stands for and to the element of
the input at that very position. The path of a failure is such a location written out.
-/

namespace Exemplar

inductive Step where
  | name (text : String)
  | index (position : Nat)

namespace Step

/-- The written form of steps that something comes before. -/
def renderRest : List Step → String
  | [] => ""
  | .name text :: rest => "." ++ text ++ renderRest rest
  | .index position :: rest => "[" ++ toString position ++ "]" ++ renderRest rest

/-- Names are joined by dots, positions stand in brackets. -/
def render : List Step → String
  | .name text :: rest => text ++ renderRest rest
  | steps => renderRest steps

example : render [.name "items", .index 3, .name "name"] = "items[3].name" := by decide

end Step

/-- A place in a schema: the whole of it, one of its fields, or the first element of a sample. -/
inductive Site where
  | schema (schema : Schema)
  | field (field : Field)
  | element (sample : Value)

namespace Site

def sample? : Site → Option Value
  | .schema _ => none
  | .field declared => some declared.sample
  | .element sample => some sample

/-- The schema whose fields can be gone to from a place. -/
def schema? (world : World) (site : Site) : Option Schema :=
  match site with
  | .schema whole => some whole
  | site => site.sample?.bind fun sample =>
      match world.heap.look sample with
      | .record recordClass _ => some (world.schema recordClass.number)
      | _ => none

def representative? (world : World) (site : Site) : Option Value :=
  site.sample?.bind fun sample =>
    (world.heap.gathering? sample).bind fun gathered => gathered.2.head?

end Site

/-- The elements of a list, or of what stands in for one. -/
def Heap.sequence? (heap : Heap) (value : Value) : Option (List Value) :=
  match heap.look value with
  | .list elements | .tuple elements | .set elements | .frozenSet elements => some elements
  | _ => none

/-- Steps that lead through a schema and through input at the same time. What is found is null where
the input has nothing; only the last step may find that. -/
inductive Leads (world : World) (rename : String → String) :
    Site → Value → List Step → Site → Value → Prop
  | here {site value} : Leads world rename site value [] site value
  | name {site value schema compiled field entries rest last found} :
      site.schema? world = some schema → schema.compiled = some compiled →
      field ∈ compiled.fields → world.heap.look value = .mapping entries →
      (rest ≠ [] → Validation.entryUnder (rename field.name) entries ≠ .null) →
      Leads world rename (.field field) (Validation.entryUnder (rename field.name) entries) rest
        last found →
      Leads world rename site value (.name field.name :: rest) last found
  | index {site value representative elements position element rest last found} :
      site.representative? world = some representative →
      world.heap.sequence? value = some elements → elements[position]? = some element →
      (rest ≠ [] → element ≠ .null) →
      Leads world rename (.element representative) element rest last found →
      Leads world rename site value (.index position :: rest) last found

/-- A required field whose key is absent from the input or null there. -/
def IsMissing (site : Site) (found : Value) : Prop :=
  ∃ field, site = .field field ∧ field.declaration.mode = .required ∧ found = .null

/-- The failure is what a check of the application answered for what is found, or for what stands in
where nothing is. -/
def IsAnswer (world : World) (config : Configuration) (rename : String → String) (site : Site)
    (found : Value) (fail : Failure) (after : Trace) : Prop :=
  ∃ field path entries before, site = .field field ∧
    found = Validation.entryUnder (rename field.name) entries ∧
    Validation.Answered world config field path entries before fail after

/-- The failure fits what is found at its place: it is about missing input where required input is
missing, and only there, but for what a check of the application says. -/
structure Explains (world : World) (config : Configuration) (rename : String → String)
    (fail : Failure) (site : Site) (found : Value) (after : Trace) : Prop where
  missing : IsMissing site found → fail = .missing fail.path
  only : fail.code = "REQ" →
    IsMissing site found ∨ IsAnswer world config rename site found fail after

variable {world : World} {config : Configuration} {rename : String → String} {root : Schema}
  {before after : Trace}

theorem Leads.ne_null {site last : Site} {value found : Value} {steps : List Step}
    (leads : Leads world rename site value steps last found) (further : steps ≠ []) :
    value ≠ .null := by
  intro same
  subst same
  cases leads with
  | here => exact further rfl
  | name _ _ _ shape _ _ => cases shape
  | index _ shape _ _ _ => cases shape

/-- Beyond its start, a walk depends on the sample alone. -/
theorem Leads.from_field {field : Field} {last : Site} {value found : Value} {steps : List Step}
    (leads : Leads world rename (.element field.sample) value steps last found)
    (further : steps ≠ []) :
    Leads world rename (.field field) value steps last found := by
  cases leads with
  | here => exact absurd rfl further
  | name site known member shape present leads =>
      exact .name site known member shape present leads
  | index site shape at_ present leads => exact .index site shape at_ present leads

/-- Steps from a place lead to where a failure arose; its path writes them out after the path of
that place. -/
def LocatedBy (world : World) (config : Configuration) (rename : String → String) (path : String)
    (fail : Failure) (after : Trace) (site : Site) (value : Value) (steps : List Step) : Prop :=
  ∃ last found, Leads world rename site value steps last found ∧
    fail.path = path ++ Step.renderRest steps ∧
    Explains world config rename fail last found after

/-- Parsing fails inside the value that it was given, never at the value itself. -/
def ParseLocates (world : World) (config : Configuration) (root : Schema)
    (rename : String → String) (parse : Parse) : Prop :=
  ∀ {type path sample value fitting fitted before fail after},
    world.heap.Typed sample type → Covered world root sample → path ≠ "" →
    (type.fit world.heap value sample).Yields fitting .toParse fitted →
    (parse type path sample value).Yields before (.error fail) after →
    ∃ steps, steps ≠ [] ∧
      LocatedBy world config rename path fail after (.element sample) value steps

section Fields

variable {parse : Parse} {field : Field} {path : String} {entries : List (Value × Value)}
  {fail : Failure}

/-- Required input that is missing is told before anything else is looked at. -/
theorem missing_of_required (total : ∀ name, config.keys.keyOf name = pure (rename name))
    (required : field.declaration.mode = .required)
    (absent : Validation.entryUnder (rename field.name) entries = .null)
    (failed : (Validation.guardField parse world config field path entries).Yields before
      (.failed fail) after) :
    fail = .missing path := by
  have bare : (Heap.named? (rename field.name) entries).getD .null = .null := absent
  have settled : (Validation.settleField parse world config field path entries).Yields before
      (.failed (.missing path)) before := by
    simp [Validation.settleField, Validation.inputOf, total, bare, required]
  have guarded := Validation.guardField_yields.mpr (.inl settled)
  cases (failed.unique guarded).1
  rfl

theorem explains_of_code (total : ∀ name, config.keys.keyOf name = pure (rename name))
    (failed : (Validation.guardField parse world config field path entries).Yields before
      (.failed fail) after)
    (located : fail.path = path)
    (only : fail.code = "REQ" →
      IsMissing (.field field) (Validation.entryUnder (rename field.name) entries) ∨
        IsAnswer world config rename (.field field)
          (Validation.entryUnder (rename field.name) entries) fail after) :
    LocatedBy world config rename path fail after (.field field)
      (Validation.entryUnder (rename field.name) entries) [] := by
  refine ⟨_, _, .here, by simpa [Step.renderRest] using located, ?_, only⟩
  intro found
  obtain ⟨_, ⟨⟩, required, absent⟩ := found
  rw [located]
  exact missing_of_required total required absent failed

/-- No steps lead into what stands in for missing input. -/
theorem not_leads_into_default {type : ValueType} {sample value found : Value} {last : Site}
    {steps : List Step} {middle : Trace} (typed : world.heap.Typed sample type)
    (stood : (type.standIn world.heap sample).Yields before value middle)
    (fit : (type.fit world.heap value sample).Yields middle .toParse after) (further : steps ≠ []) :
    ¬ Leads world rename (.element sample) value steps last found := by
  intro leads
  cases typed with
  | plain collection record =>
      cases leads with
      | here => exact further rfl
      | name site _ _ _ _ _ =>
          simp only [Site.schema?, Site.sample?, Option.bind_some] at site
          split at site
          next shape => simp [Heap.isRecord, shape] at record
          next => cases site
      | index site _ _ _ _ => simp [Site.representative?, Site.sample?, collection] at site
  | record shape =>
      obtain ⟨rfl, rfl⟩ := Run.yields_pure.mp stood
      obtain ⟨entries, mapping⟩ := mapping_of_toParse (.record shape) shape fit
      cases shape.symm.trans mapping
  | @unchecked _ kind _ | @elements _ kind _ _ _ _ _ =>
      obtain ⟨rfl, rfl⟩ := Gathering.empty_yields.mp stood
      cases leads with
      | here => exact further rfl
      | name _ _ _ shape _ _ => cases kind <;> cases shape
      | index _ shape at_ _ _ =>
          cases kind <;> cases shape <;> simp at at_

theorem field_failure_located (locates : ParseLocates world config root rename parse)
    (total : ∀ name, config.keys.keyOf name = pure (rename name))
    (compiled : field.CompiledBy Catalogue.builtIn world.heap)
    (covered : Covered world root field.sample) (bare : field.declaration.fallback = none)
    (place : path ≠ "")
    (failed : (Validation.guardField parse world config field path entries).Yields before
      (.failed fail) after) :
    ∃ steps, LocatedBy world config rename path fail after (.field field)
      (Validation.entryUnder (rename field.name) entries) steps := by
  rcases Validation.guardField_yields.mp failed with settled | ⟨fault, _, _, told, _⟩
  · cases Validation.settles_of_settleField settled with
    | unsought sought =>
        cases sought with
        | missing named absent required =>
            refine ⟨[], explains_of_code total failed rfl fun _ => .inl ?_⟩
            rw [total] at named
            obtain ⟨rfl, _⟩ := Run.yields_pure.mp named
            exact ⟨field, rfl, required, absent⟩
    | refused _ _ =>
        refine ⟨[], explains_of_code total failed rfl fun code => ?_⟩
        simp [Failure.type] at code
    | rejected sought compared fits decided =>
        refine ⟨[], explains_of_code total failed rfl fun code => .inr ?_⟩
        have answered := Validation.answered_of_code compiled sought compared fits decided
          (by simp_all [Failure.movedTo, Check.codes])
        exact ⟨field, path, entries, before, rfl, rfl, answered⟩
    | failed admitted parsed _ =>
        obtain ⟨sought, fit, _⟩ := admitted
        obtain ⟨steps, further, last, found, leads, written, explains⟩ :=
          locates compiled.typed covered place fit parsed
        rcases Validation.substitute_cases world.heap field.declaration _ with same | replaced
        · rw [same] at fit leads
          cases sought with
          -- A default is no part of the input, but nothing inside a default can fail either.
          | standIn _ _ _ stood =>
              exact absurd leads (not_leads_into_default compiled.typed stood fit further)
          | given named _ =>
              rw [total] at named
              obtain ⟨rfl, _⟩ := Run.yields_pure.mp named
              exact ⟨steps, last, found, leads.from_field further, written, explains⟩
        · simp [bare] at replaced
  · cases told
    refine ⟨[], explains_of_code total failed rfl fun code => ?_⟩
    simp [Failure.unknown] at code

theorem fills_failure_located {schema : Schema} {compiled : Compiled} {location : String}
    (builtIn : world.BuiltIn root) (used : world.Uses root schema)
    (known : schema.compiled = some compiled)
    (locates : ParseLocates world config root rename parse)
    (total : ∀ name, config.keys.keyOf name = pure (rename name))
    (bare : ∀ field ∈ compiled.fields, field.declaration.fallback = none)
    (named : ∀ field ∈ compiled.fields, field.name ≠ "")
    (fills : Validation.Fills parse world config location entries compiled.fields before
      (.error fail) after) :
    ∃ field ∈ compiled.fields, ∃ steps,
      LocatedBy world config rename (Validation.fieldPath location field.name) fail after
        (.field field) (Validation.entryUnder (rename field.name) entries) steps := by
  obtain ⟨field, member, _, failed⟩ := fills.failed_field
  have place : Validation.fieldPath location field.name ≠ "" := by
    unfold Validation.fieldPath
    split
    next => exact named field member
    next => simp [String.append_eq_empty_iff, named field member]
  obtain ⟨steps, located⟩ := field_failure_located locates total
    (builtIn.fields used known member) (builtIn.covered used known member) (bare field member)
    place failed
  exact ⟨field, member, steps, located⟩

theorem elementPath_ne_empty {index : Nat} : Validation.elementPath path index ≠ "" := by
  simp [Validation.elementPath_eq, String.append_eq_empty_iff]

/-- A failure among elements is located from the element that failed on, by its position. -/
theorem elements_failure_located {kind : Gathering} {element : ValueType} {sample : Value}
    {index dropped : Nat} {gathered : Value} {values : List Value}
    (locates : ParseLocates world config root rename parse)
    (typed : world.heap.Typed sample element)
    (covered : Covered world root sample)
    (passes : Validation.Passes parse world.heap config kind.collection element sample path index
      gathered values before (.error fail) dropped after) :
    ∃ offset value steps, values[offset]? = some value ∧
      LocatedBy world config rename (Validation.elementPath path (index + offset)) fail after
        (.element sample) value steps := by
  induction values generalizing index gathered before dropped with
  | nil => cases passes
  | cons value rest ih =>
      cases passes with
      | @refused _ _ _ _ _ reason _ fit =>
          refine ⟨0, value, [], rfl, .element sample, value, .here, ?_, ?_, ?_⟩
          · simp [Failure.type, Step.renderRest]
          · intro found
            obtain ⟨_, ⟨⟩, _⟩ := found
          · intro code
            simp [Failure.type] at code
      | settled _ _ passes | parsed _ _ _ passes | skipped _ _ _ _ passes =>
          obtain ⟨offset, found, steps, at_, located⟩ := ih passes
          refine ⟨offset + 1, found, steps, at_, ?_⟩
          rwa [show index + (offset + 1) = index + 1 + offset by omega]
      | failed fit parsed _ =>
          obtain ⟨steps, _, located⟩ := locates typed covered elementPath_ne_empty fit parsed
          exact ⟨0, value, steps, rfl, located⟩

end Fields

variable {fail : Failure}

theorem sequence_of_iterate {kind : Gathering} {value : Value} {values : List Value}
    (accepted : kind.collection.accepts (world.heap.look value) = true)
    (listed : world.heap.iterate value = .ok values) :
    world.heap.sequence? value = some values := by
  cases kind <;> cases shape : world.heap.look value <;>
    simp_all [Heap.iterate, Heap.elements?, Heap.sequence?, Gathering.collection, Collection.array,
      Collection.set, Collection.isSequence, Collection.isAnySet]

theorem parseLocates_parseTo (builtIn : world.BuiltIn root)
    (total : ∀ name, config.keys.keyOf name = pure (rename name))
    (bare : ∀ {schema compiled field}, world.Uses root schema → schema.compiled = some compiled →
      field ∈ compiled.fields → field.declaration.fallback = none)
    (named : ∀ {schema compiled field}, world.Uses root schema → schema.compiled = some compiled →
      field ∈ compiled.fields → field.name ≠ "") (limit : Nat) :
    ParseLocates world config root rename (Validation.parseTo world config limit) := by
  induction limit using Nat.strongRecOn with
  | ind limit ih =>
      intro type path sample value fitting fitted before fail after typed covered place fit ran
      obtain ⟨dropped, parses⟩ := parses_of_parseTo typed ran
      generalize finished : (Except.error fail : Outcome) = outcome at parses
      cases parses with
      | plain _ _ | unchecked _ _ _ => cases finished
      | @record below recordClass _ _ _ shape nested =>
          subst finished
          obtain ⟨used, class_⟩ := covered recordClass (.record shape)
          obtain ⟨entries, mapping⟩ := mapping_of_toParse typed shape fit
          cases Validation.validates_of_validateWith nested with
          | refused _ other _ => exact absurd mapping (other entries)
          | @failed compiled _ _ _ known mapping fills =>
              obtain ⟨field, member, steps, last, found, leads, written, explains⟩ :=
                fills_failure_located builtIn used known (ih below (by omega)) total
                  (fun _ => bare used known) (fun _ => named used known) fills
              refine ⟨.name field.name :: steps, by simp, last, found, ?_, ?_, explains⟩
              · exact .name (by simp [Site.schema?, Site.sample?, shape]) known member mapping
                  leads.ne_null leads
              · simp [written, Validation.fieldPath, place, Step.renderRest, String.append_assoc]
      | @passed below _ _ _ _ _ _ _ _ shape element listed passes =>
          subst finished
          obtain ⟨position, value, steps, at_, last, found, leads, written, explains⟩ :=
            elements_failure_located (ih below (by omega)) element (covered.representative shape)
              passes
          refine ⟨.index position :: steps, by simp, last, found, ?_, ?_, explains⟩
          · exact .index (by simp [Site.representative?, Site.sample?, shape])
              (sequence_of_iterate (accepted_of_toParse typed shape fit) listed) at_ leads.ne_null
              leads
          · simp [written, Validation.elementPath_eq, Step.renderRest, String.append_assoc]

/-- A failed run tells where in the input and in the schema it failed, and tells missing input where
required input is missing. -/
theorem validateAt_failure_located {schema : Schema} {data : Value} (builtIn : world.BuiltIn schema)
    (total : ∀ name, config.keys.keyOf name = pure (rename name))
    (bare : ∀ {used compiled field}, world.Uses schema used → used.compiled = some compiled →
      field ∈ compiled.fields → field.declaration.fallback = none)
    (named : ∀ {used compiled field}, world.Uses schema used → used.compiled = some compiled →
      field ∈ compiled.fields → field.name ≠ "")
    (failed : (world.validateAt config schema "" data).Yields before (.error fail) after) :
    ∃ steps last found, Leads world rename (.schema schema) data steps last found ∧
      fail.path = Step.render steps ∧
      (IsMissing last found → fail = .missing fail.path) ∧
      (fail.code = "REQ" →
        IsMissing last found ∨ IsAnswer world config rename last found fail after) := by
  cases Validation.validates_of_validateWith failed with
  | refused _ _ _ =>
      refine ⟨[], .schema schema, data, .here, rfl, ?_, ?_⟩
      · intro found
        obtain ⟨_, ⟨⟩, _⟩ := found
      · intro code
        simp [Failure.type] at code
  | failed known mapping fills =>
      obtain ⟨field, member, steps, last, found, leads, written, explains⟩ :=
        fills_failure_located builtIn .root known (parseLocates_parseTo builtIn total bare named _)
          total (fun _ => bare .root known) (fun _ => named .root known) fills
      refine ⟨.name field.name :: steps, last, found, ?_, ?_, explains.missing, explains.only⟩
      · exact .name rfl known member mapping leads.ne_null leads
      · simpa [Validation.fieldPath, Step.render] using written

/-- A tag of the home node that is no text, told by its position. -/
theorem validateAt_failure_located_nodes :
    ∃ fail after, (Nodes.world.validateAt (Nodes.world.config 0) Nodes.schema ""
        Nodes.astray).Yields [] (.error fail) after ∧ fail.path = "home.tags[1]" ∧
      ∃ steps last found,
        Leads Nodes.world id (.schema Nodes.schema) Nodes.astray steps last found ∧
        fail.path = Step.render steps ∧
        (IsMissing last found → fail = .missing fail.path) ∧
        (fail.code = "REQ" → IsMissing last found ∨
          IsAnswer Nodes.world (Nodes.world.config 0) id last found fail after) := by
  have ran : (Nodes.world.validateAt (Nodes.world.config 0) Nodes.schema "" Nodes.astray).Yields []
      (.error (.type "home.tags[1]" "expected string but got number")) [] := rfl
  have total : ∀ name, (Nodes.world.config 0).keys.keyOf name = pure (id name) := fun _ => rfl
  exact ⟨_, [], ran, rfl, validateAt_failure_located Nodes.builtIn total
    (Nodes.of_fields Nodes.without_fallback) (Nodes.of_fields Nodes.with_name) ran⟩

end Exemplar
