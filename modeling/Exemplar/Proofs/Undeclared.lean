import Exemplar.Proofs.Bounds
import Exemplar.Proofs.Coherence
import Exemplar.Proofs.Depth

/-!
Keys that no field looks up. Two inputs are interchangeable for a schema if each field finds in the
one what it finds in the other, at every depth; what else their objects hold, and in which order,
is free. Interchangeable inputs are validated by one and the same run: no check, no message and no
count of elements tells them apart, as long as the fields that hold records declare no check that
looks at a value as a whole.
-/

namespace Exemplar

mutual

/-- For a sample the one value does as well as the other: lists by their elements, objects by the
schema that the sample is a record of, all else by being the same. -/
inductive Interchangeable (world : World) (config : Configuration) : Value → Value → Value → Prop
  | same {sample value} : Interchangeable world config sample value value
  | elements {sample kind representative rest lefts rights} :
      world.heap.gathering? sample = some (kind, representative :: rest) →
      lefts.length = rights.length →
      (∀ pair ∈ lefts.zip rights, Interchangeable world config representative pair.1 pair.2) →
      Interchangeable world config sample (.list lefts) (.list rights)
  | object {sample recordClass fields left right} :
      world.heap.look sample = .record recordClass fields →
      InterchangeableFor world config (world.schema recordClass.number) left right →
      Interchangeable world config sample left right

/-- For a schema the one value does as well as the other: objects by what its fields find in them,
where what is not there is null. -/
inductive InterchangeableFor (world : World) (config : Configuration) :
    Schema → Value → Value → Prop
  | same {schema value} : InterchangeableFor world config schema value value
  | fields {schema lefts rights} :
      (∀ compiled field key before after, schema.compiled = some compiled →
        field ∈ compiled.fields → (config.keys.keyOf field.name).Yields before key after →
        Interchangeable world config field.sample (Validation.entryUnder key lefts)
          (Validation.entryUnder key rights)) →
      InterchangeableFor world config schema (.mapping lefts) (.mapping rights)

end

/-- Fields that stand for records declare nothing that looks at a value as a whole, and bounds only
on the number of elements. Samples are stored objects where a fallback may be parsed in their
place. -/
structure Field.Discreet (heap : Heap) (field : Field) : Prop where
  plain {recordClass} : heap.StandsFor field.sample recordClass →
    field.declaration.allowed = none ∧ field.declaration.regex = none ∧
      field.declaration.custom = none ∧ field.declaration.fallback = none
  unbounded : heap.isRecord field.sample = true →
    field.declaration.minimum = none ∧ field.declaration.maximum = none
  stored : field.declaration.fallback ≠ none → field.sample.Stored

/-- All fields that a schema uses are discreet. -/
def World.Discreet (world : World) (root : Schema) : Prop :=
  ∀ {schema compiled field}, world.Uses root schema → schema.compiled = some compiled →
    field ∈ compiled.fields → field.Discreet world.heap

section Levels

/-- How many levels of collections a type enters. -/
def ValueType.levels : ValueType → Nat
  | .bound _ element => element.levels + 1
  | .unbound _ => 1
  | _ => 0

variable {heap : Heap} {sample : Value} {type : ValueType} {before after : Trace}

/-- A type has no more levels than its binding has taken. -/
theorem Catalogue.levels_of_bindTo {fuel : Nat}
    (ran : (bindTo builtIn heap fuel (builtInType heap sample) sample).Yields before type after) :
    type.levels ≤ fuel := by
  induction fuel generalizing sample type before after with
  | zero => simp [bindTo] at ran
  | succ fuel ih =>
      cases shape : heap.gathering? sample with
      | none =>
          have single : (builtInType heap sample).levels = 0 ∧
              bindTo builtIn heap (fuel + 1) (builtInType heap sample) sample =
                pure (builtInType heap sample) := by
            simp only [builtInType, shape]
            split <;> exact ⟨rfl, rfl⟩
          rw [single.2, Run.yields_pure] at ran
          rw [ran.1, single.1]
          exact Nat.zero_le _
      | some gathered =>
          obtain ⟨kind, elements⟩ := gathered
          have collection : builtInType heap sample = .unbound kind.collection := by
            simp [builtInType, shape]
          simp only [collection, bindTo, Run.yields_bind, Heap.first_yields shape] at ran
          obtain ⟨_, _, ⟨rfl, rfl⟩, ran⟩ := ran
          cases elements with
          | nil =>
              simp only [List.head?_nil, Run.yields_pure] at ran
              rw [ran.1]
              exact Nat.succ_le_succ (Nat.zero_le fuel)
          | cons representative rest =>
              simp only [List.head?_cons, resolve_builtIn, pure_bind, Run.yields_bind,
                Run.yields_pure] at ran
              obtain ⟨element, _, bound, rfl, _⟩ := ran
              exact Nat.succ_le_succ (ih bound)

theorem Field.CompiledBy.levels {field : Field}
    (compiled : field.CompiledBy Catalogue.builtIn heap) :
    field.type.levels ≤ heap.reach field.sample := by
  obtain ⟨before, after, ran⟩ := compiled
  simp only [Field.compile, Run.yields_bind, Run.yields_lift, Run.yields_pure] at ran
  obtain ⟨type, _, typed, checks, _, _, made, _⟩ := ran
  have same : field.type = type := congrArg Field.type made
  simp only [Catalogue.typeFor, Catalogue.resolve_builtIn, pure_bind] at typed
  exact same ▸ Catalogue.levels_of_bindTo typed

theorem Value.Stored.depth_eq (stored : sample.Stored) : sample.depth = 1 := by
  cases sample <;> first | rfl | exact stored.elim

end Levels

namespace Validation

variable {world : World} {config : Configuration} {root : Schema}

/-- Where a sample stands for no record, what is parsed is as deep as the type and no deeper. -/
theorem parseTo_of_recordFree {type : ValueType} {path : String} {sample value : Value}
    {limit other : Nat} (typed : world.heap.Typed sample type)
    (bare : ∀ recordClass, ¬ world.heap.StandsFor sample recordClass)
    (enough : type.levels ≤ limit) (more : type.levels ≤ other) :
    parseTo world config limit type path sample value =
      parseTo world config other type path sample value := by
  induction typed generalizing limit other path value with
  | plain _ _ => rw [parseTo_primitive, parseTo_primitive]
  | record shape => exact absurd (.record shape) (bare _)
  | unchecked shape =>
      obtain ⟨limit, rfl⟩ : ∃ below, limit = below + 1 := ⟨limit - 1, by
        simp only [ValueType.levels] at enough; omega⟩
      obtain ⟨other, rfl⟩ : ∃ below, other = below + 1 := ⟨other - 1, by
        simp only [ValueType.levels] at more; omega⟩
      refine parseCollection_congr fun first _ _ _ _ => ?_
      simp [Heap.first_yields shape] at first
  | elements shape _ ih =>
      simp only [ValueType.levels] at enough more
      obtain ⟨limit, rfl⟩ : ∃ below, limit = below + 1 := ⟨limit - 1, by omega⟩
      obtain ⟨other, rfl⟩ : ∃ below, other = below + 1 := ⟨other - 1, by omega⟩
      refine parseCollection_congr fun first bound _ _ _ => ?_
      obtain ⟨same, _⟩ := (Heap.first_yields shape).mp first
      cases same
      obtain ⟨rfl, _⟩ := Run.yields_pure.mp bound
      exact ih (fun recordClass stands => bare recordClass (.element shape stands)) (by omega)
        (by omega)

end Validation

section Views

variable {world : World} {config : Configuration} {sample left right : Value} {type : ValueType}

/-- A value that no field finds anything in can only be replaced by itself. -/
theorem Interchangeable.eq_of_recordFree (typed : world.heap.Typed sample type)
    (bare : ∀ recordClass, ¬ world.heap.StandsFor sample recordClass)
    (alike : Interchangeable world config sample left right) : left = right := by
  induction typed generalizing left right with
  | @elements sample kind representative rest element shape _ ih =>
      cases alike with
      | same => rfl
      | object record _ => exact absurd (.record record) (bare _)
      | elements other length each =>
          cases shape.symm.trans other
          have inner : ∀ recordClass, ¬ world.heap.StandsFor representative recordClass :=
            fun recordClass stands => bare recordClass (.element shape stands)
          have equal : List.Forall₂ Eq _ _ := List.forall₂_iff_zip.mpr
            ⟨length, fun member => ih inner (each _ member)⟩
          rw [List.forall₂_eq_eq_eq] at equal
          rw [equal]
  | unchecked shape =>
      cases alike with
      | same => rfl
      | elements other _ _ => cases shape.symm.trans other
      | object record _ => simp [Heap.gathering?, record] at shape
  | record shape => exact absurd (.record shape) (bare _)
  | plain none single =>
      cases alike with
      | same => rfl
      | elements other _ _ => cases none.symm.trans other
      | object record _ => simp [Heap.isRecord, record] at single

/-- The one fits as the other does. -/
theorem Interchangeable.fit_eq (typed : world.heap.Typed sample type)
    (alike : Interchangeable world config sample left right) :
    type.fit world.heap left sample = type.fit world.heap right sample := by
  cases alike with
  | same => rfl
  | @elements _ kind _ _ _ _ shape _ _ =>
      obtain ⟨_, rfl, _⟩ := typed.of_representative shape
      cases kind <;> rfl
  | object shape inner =>
      cases inner with
      | same => rfl
      | fields _ =>
          cases typed.unique (.record shape)
          have mapping (entries : List (Value × Value)) :
              world.heap.look (.mapping entries) = .mapping entries := rfl
          simp only [ValueType.fit, mapping, shape, Value.isInstanceOf]

/-- The one has a hash where the other has, and then they are the same. -/
theorem Interchangeable.hash_eq (alike : Interchangeable world config sample left right) :
    left = right ∨ ∃ fault, world.heap.hash? left = .error fault ∧
      world.heap.hash? right = .error fault := by
  cases alike with
  | same => exact .inl rfl
  | elements _ _ _ => exact .inr ⟨.unhashable "list", rfl, rfl⟩
  | object _ inner =>
      cases inner with
      | same => exact .inl rfl
      | fields _ => exact .inr ⟨.unhashable "dict", rfl, rfl⟩

/-- What is valid as it stands is a record, which only the same record replaces. -/
theorem Interchangeable.eq_of_settled {before after : Trace} (typed : world.heap.Typed sample type)
    (alike : Interchangeable world config sample left right)
    (fit : (type.fit world.heap left sample).Yields before .settled after) : left = right := by
  have record := (record_of_settled typed fit).2
  cases alike with
  | same => rfl
  | elements _ _ _ => cases record
  | object _ inner =>
      cases inner with
      | same => rfl
      | fields _ => cases record

theorem Interchangeable.null_right (alike : Interchangeable world config sample .null right) :
    right = .null := by
  cases alike with
  | same => rfl
  | object _ inner => cases inner; rfl

theorem Interchangeable.null_left (alike : Interchangeable world config sample left .null) :
    left = .null := by
  cases alike with
  | same => rfl
  | object _ inner => cases inner; rfl

variable {lefts rights : List Value}

theorem distinct_interchangeable {members : List Value}
    (each : List.Forall₂ (Interchangeable world config sample) lefts rights) :
    world.heap.distinct members lefts = world.heap.distinct members rights := by
  induction each generalizing members with
  | nil => rfl
  | @cons left right _ _ alike _ ih =>
      have added : world.heap.addMember members left = world.heap.addMember members right := by
        rcases alike.hash_eq with rfl | ⟨fault, one, other⟩
        · rfl
        · simp only [Heap.addMember, one, other]
      simp only [Heap.distinct, added, ih]

/-- Lists of interchangeable elements count the same. -/
theorem size_interchangeable {kind : Gathering}
    (each : List.Forall₂ (Interchangeable world config sample) lefts rights) :
    kind.collection.size world.heap (.list lefts) =
      kind.collection.size world.heap (.list rights) := by
  have length : Measure.length world.heap (.list lefts) =
      Measure.length world.heap (.list rights) := by
    simp only [Measure.length, Heap.length?, Heap.look, each.length_eq]
  cases kind with
  | array => exact length
  | set =>
      simp only [Collection.size, Gathering.collection, Collection.set, Heap.elements?, Heap.look,
        distinct_interchangeable each, length]

end Views

namespace Field

variable {world : World} {config : Configuration} {field : Field} {left right : Value}

/-- No check tells interchangeable values apart. -/
theorem Discreet.firstFailure_eq (discreet : field.Discreet world.heap)
    (compiled : field.CompiledBy Catalogue.builtIn world.heap)
    (alike : Interchangeable world config field.sample left right) :
    field.firstFailure world.heap left = field.firstFailure world.heap right := by
  by_cases stands : ∃ recordClass, world.heap.StandsFor field.sample recordClass
  · obtain ⟨recordClass, stands⟩ := stands
    obtain ⟨unlimited, unmatched, none, _⟩ := discreet.plain stands
    refine firstFailureOf_congr fun check member => ?_
    cases alike with
    | same => rfl
    | @object _ own stored _ _ shape _ =>
        have record : world.heap.isRecord field.sample = true := by simp [Heap.isRecord, shape]
        obtain ⟨lower, upper⟩ := discreet.unbounded record
        cases Check.asked_of_compile compiled.checked member with
        | @bySize side _ declared _ | @byValue side _ declared _ =>
            cases side with
            | below => cases lower.symm.trans declared
            | above => cases upper.symm.trans declared
        | allowed declared _ => cases unlimited.symm.trans declared
        | matching declared _ | noRegex declared _ _ => cases unmatched.symm.trans declared
        | integer _ _ plain => exact absurd shape (plain own stored)
        | custom declared => cases none.symm.trans declared
    | @elements _ _ _ _ lefts rights shape length each =>
        have sized := Heap.hasSize_of_gathering shape
        have counted : field.type.measure.size world.heap (.list lefts) =
            field.type.measure.size world.heap (.list rights) := by
          rw [compiled.typed.measured shape]
          exact size_interchangeable
            (List.forall₂_iff_zip.mpr ⟨length, fun member => each _ member⟩)
        cases Check.asked_of_compile compiled.checked member with
        | bySize _ _ => simp only [Check.apply, counted]
        | byValue _ unsized | integer _ unsized _ => cases sized.symm.trans unsized
        | allowed declared _ => cases unlimited.symm.trans declared
        | matching declared _ | noRegex declared _ _ => cases unmatched.symm.trans declared
        | custom declared => cases none.symm.trans declared
  · have same : left = right :=
      alike.eq_of_recordFree compiled.typed fun recordClass found => stands ⟨recordClass, found⟩
    rw [same]

end Field

namespace Validation

variable {world : World} {config : Configuration} {root : Schema} {depth : Nat}

section Fields

variable {field : Field} {path : String}

/-- Two values come to the same if they fit alike, pass the same checks and are parsed alike. -/
theorem settleValue_congr {one other : Parse} {left right : Value}
    (fits : field.type.fit world.heap left field.sample =
      field.type.fit world.heap right field.sample)
    (checks : field.firstFailure world.heap left = field.firstFailure world.heap right)
    (settled : ∀ {before after},
      (field.type.fit world.heap left field.sample).Yields before .settled after → left = right)
    (parses : ∀ {before after},
      (field.type.fit world.heap left field.sample).Yields before .toParse after →
      one field.type path field.sample left = other field.type path field.sample right) :
    settleValue one world config field path left =
      settleValue other world config field path right := by
  unfold settleValue
  rw [← fits]
  refine Run.bind_congr_yields fun {_ fit _} fitted => ?_
  cases fit with
  | refused reason => rfl
  | settled => simp only [settled fitted, checkField]
  | toParse => simp only [checkField, checks, parseField, parses fitted]

end Fields

/-- Interchangeable values are parsed alike to any two depths that leave, below what each of them is
nested, as much room as the stored objects can take. -/
def ParsesAlike (world : World) (config : Configuration) (root : Schema) (depth : Nat) : Prop :=
  ∀ {type path sample left right fitting fitted levels limit other},
    world.heap.Typed sample type → Covered world root sample →
    Interchangeable world config sample left right →
    world.heap.Within depth left → world.heap.Within levels right →
    (type.fit world.heap left sample).Yields fitting .toParse fitted →
    depth + world.heap.depth + 2 ≤ limit → levels + world.heap.depth + 2 ≤ other →
    parseTo world config limit type path sample left =
      parseTo world config other type path sample right

section Alike

variable {field : Field} {path location : String} {levels limit other : Nat}
  {sample left right : Value} {lefts rights : List (Value × Value)} {before after : Trace}

theorem substitute_of_no_fallback {heap : Heap} {declaration : Declaration}
    (bare : declaration.fallback = none) (value : Value) :
    substitute heap declaration value = value :=
  (substitute_cases heap declaration value).resolve_right (by simp [bare])

/-- What a field falls back on, or stands in for input, is parsed alike wherever it is met. -/
theorem parseTo_alike_of_fallback {value : Value} (discreet : field.Discreet world.heap)
    (compiled : field.CompiledBy Catalogue.builtIn world.heap)
    (declared : field.declaration.fallback ≠ none) (deep : depth + world.heap.depth + 2 ≤ limit)
    (more : levels + world.heap.depth + 2 ≤ other) :
    parseTo world config limit field.type path field.sample value =
      parseTo world config other field.type path field.sample value := by
  have levels := compiled.levels
  have stored := (discreet.stored declared).depth_eq
  simp only [Heap.reach, stored] at levels
  have bare (recordClass : RecordClass) : ¬ world.heap.StandsFor field.sample recordClass :=
    fun stands => declared (discreet.plain stands).2.2.2
  exact parseTo_of_recordFree compiled.typed bare (by omega) (by omega)

/-- A value that stands in for missing input is parsed alike to any two depths. -/
theorem parseTo_alike_of_standIn {given : Value} {fitting fitted : Trace}
    (discreet : field.Discreet world.heap)
    (compiled : field.CompiledBy Catalogue.builtIn world.heap)
    (looked : (withoutInput world field path).Yields before (.inr given) after)
    (fit : (field.type.fit world.heap (substitute world.heap field.declaration given)
      field.sample).Yields fitting .toParse fitted)
    (deep : depth + world.heap.depth + 2 ≤ limit) (more : levels + world.heap.depth + 2 ≤ other) :
    parseTo world config limit field.type path field.sample
        (substitute world.heap field.declaration given) =
      parseTo world config other field.type path field.sample
        (substitute world.heap field.declaration given) := by
  by_cases declared : field.declaration.fallback = none
  · obtain ⟨limit, rfl⟩ : ∃ below, limit = below + 1 := ⟨limit - 1, by omega⟩
    obtain ⟨other, rfl⟩ : ∃ below, other = below + 1 := ⟨other - 1, by omega⟩
    rw [substitute_of_no_fallback declared] at fit ⊢
    unfold withoutInput at looked
    split at looked
    next => simp at looked
    next => simp at looked
    next =>
      simp only [Run.yields_bind, Run.yields_pure, Sum.inr.injEq] at looked
      obtain ⟨_, _, stood, rfl, _⟩ := looked
      exact parseTo_standIn compiled.typed stood fit
  · exact parseTo_alike_of_fallback discreet compiled declared deep more

/-- A field makes the same of the two values that it finds. -/
theorem settleField_alike (path : String) (alike : ParsesAlike world config root depth)
    (compiled : field.CompiledBy Catalogue.builtIn world.heap)
    (covered : Covered world root field.sample) (discreet : field.Discreet world.heap)
    (found : ∀ key before after, (config.keys.keyOf field.name).Yields before key after →
      Interchangeable world config field.sample (entryUnder key lefts) (entryUnder key rights))
    (inLeft : ∀ part ∈ Value.interleave lefts, world.heap.Within depth part)
    (inRight : ∀ part ∈ Value.interleave rights, world.heap.Within levels part)
    (deep : depth + world.heap.depth + 2 ≤ limit) (more : levels + world.heap.depth + 2 ≤ other) :
    settleField (parseTo world config limit) world config field path lefts =
      settleField (parseTo world config other) world config field path rights := by
  have typed := compiled.typed
  rw [settleField_eq_keyOf, settleField_eq_keyOf]
  refine Run.bind_congr_yields fun {_ key _} named => ?_
  have same := found key _ _ named
  by_cases absent : entryUnder key lefts = .null
  · have missing : entryUnder key rights = .null := by
      rw [absent] at same
      exact same.null_right
    rw [absent, missing]
    refine Run.bind_congr_yields fun {_ input _} looked => ?_
    cases input with
    | inl outcome => rfl
    | inr given =>
        exact settleValue_congr rfl rfl (fun _ => rfl) fun fit =>
          parseTo_alike_of_standIn discreet compiled looked fit deep more
  have present : entryUnder key rights ≠ .null := by
    intro missing
    rw [missing] at same
    exact absent same.null_left
  rw [fromEntry_of_ne_null absent, fromEntry_of_ne_null present, pure_bind, pure_bind]
  simp only [settleInput]
  have within := inLeft _ (mem_interleave_of_entryUnder absent)
  have inside := inRight _ (mem_interleave_of_entryUnder present)
  by_cases declared : field.declaration.fallback = none
  · rw [substitute_of_no_fallback declared, substitute_of_no_fallback declared]
    exact settleValue_congr (same.fit_eq typed) (discreet.firstFailure_eq compiled same)
      (same.eq_of_settled typed) fun fit =>
        alike typed covered same within inside fit deep more
  · -- The sample stands for no record, so the values are the same before the fallback has its say.
    have bare (recordClass : RecordClass) : ¬ world.heap.StandsFor field.sample recordClass :=
      fun stands => declared (discreet.plain stands).2.2.2
    rw [same.eq_of_recordFree typed bare]
    exact settleValue_congr rfl rfl (fun _ => rfl) fun _ =>
      parseTo_alike_of_fallback discreet compiled declared deep more

/-- Objects that are interchangeable for a schema are validated alike. -/
theorem validateWith_alike {schema : Schema} (builtIn : world.BuiltIn root)
    (discreet : world.Discreet root) (used : world.Uses root schema)
    (alike : ParsesAlike world config root depth)
    (same : InterchangeableFor world config schema left right)
    (inLeft : world.heap.Within (depth + 1) left) (inRight : world.heap.Within (levels + 1) right)
    (deep : depth + world.heap.depth + 2 ≤ limit) (more : levels + world.heap.depth + 2 ≤ other) :
    validateWith (parseTo world config limit) world config schema location left =
      validateWith (parseTo world config other) world config schema location right := by
  have settle {lefts rights : List (Value × Value)} {compiled : Compiled}
      (known : schema.compiled = some compiled)
      (found : ∀ field key before after, field ∈ compiled.fields →
        (config.keys.keyOf field.name).Yields before key after →
        Interchangeable world config field.sample (entryUnder key lefts) (entryUnder key rights))
      (first : ∀ part ∈ Value.interleave lefts, world.heap.Within depth part)
      (second : ∀ part ∈ Value.interleave rights, world.heap.Within levels part) :
      settleFields (parseTo world config limit) world config location lefts compiled.fields [] =
        settleFields (parseTo world config other) world config location rights compiled.fields
          [] := by
    refine settleFields_congr fun field member path => ?_
    have settled := settleField_alike path alike (builtIn.fields used known member)
      (builtIn.covered used known member) (discreet used known member)
      (fun key before after named => found field key before after member named) first second deep
      more
    simp only [guardField, settled]
  cases same with
  | same =>
      simp only [validateWith]
      split
      next => rfl
      next entries mapping =>
        refine Run.bind_congr_yields fun {_ compiled _} declared => ?_
        have known := demandCompiled_ok.mp (Run.yields_lift.mp declared).1
        have inside {depth : Nat} (within : world.heap.Within (depth + 1) left) :
            ∀ part ∈ Value.interleave entries, world.heap.Within depth part := by
          intro part member
          exact within part (by rw [mapping]; exact member)
        rw [settle known (fun _ _ _ _ _ _ => .same) (inside inLeft) (inside inRight)]
      next => rfl
  | fields found =>
      simp only [validateWith, Heap.look]
      refine Run.bind_congr_yields fun {_ compiled _} declared => ?_
      have known := demandCompiled_ok.mp (Run.yields_lift.mp declared).1
      rw [settle known (fun field key before after => found compiled field key before after known)
        inLeft inRight]

/-- Elements that are interchangeable one by one are gathered alike. -/
theorem parseElements_alike {kind : Gathering} {element : ValueType} {index : Nat}
    {gathered : Value} {lefts rights : List Value} (alike : ParsesAlike world config root depth)
    (typed : world.heap.Typed sample element) (covered : Covered world root sample)
    (same : List.Forall₂ (Interchangeable world config sample) lefts rights)
    (inLeft : ∀ item ∈ lefts, world.heap.Within depth item)
    (inRight : ∀ item ∈ rights, world.heap.Within levels item)
    (deep : depth + world.heap.depth + 2 ≤ limit) (more : levels + world.heap.depth + 2 ≤ other) :
    parseElements (parseTo world config limit) world.heap config kind.collection element sample path
        index gathered lefts =
      parseElements (parseTo world config other) world.heap config kind.collection element sample
        path index gathered rights := by
  induction same generalizing index gathered with
  | nil => rfl
  | @cons left right _ _ alikes _ ih =>
      simp only [List.forall_mem_cons] at inLeft inRight
      have items : parseItem (parseTo world config limit) world.heap config kind.collection element
            sample (elementPath path index) gathered left =
          parseItem (parseTo world config other) world.heap config kind.collection element sample
            (elementPath path index) gathered right := by
        unfold parseItem
        rw [← alikes.fit_eq typed]
        refine Run.bind_congr_yields fun {_ fit _} fitted => ?_
        cases fit with
        | refused reason => rfl
        | settled => simp only [alikes.eq_of_settled typed fitted]
        | toParse =>
            simp only [alike typed covered alikes inLeft.1 inRight.1 fitted deep more]
      rw [parseElements_cons, parseElements_cons, items]
      refine bind_congr fun result => ?_
      cases result with
      | ok next => exact ih inLeft.2 inRight.2
      | error fail => rfl

theorem parseCollection_alike {kind : Gathering} {representative : Value} {element : ValueType}
    {rest lefts rights : List Value} (alike : ParsesAlike world config root depth)
    (shape : world.heap.gathering? sample = some (kind, representative :: rest))
    (typed : world.heap.Typed representative element)
    (covered : Covered world root representative)
    (same : List.Forall₂ (Interchangeable world config representative) lefts rights)
    (inLeft : ∀ item ∈ lefts, world.heap.Within depth item)
    (inRight : ∀ item ∈ rights, world.heap.Within levels item)
    (deep : depth + world.heap.depth + 2 ≤ limit) (more : levels + world.heap.depth + 2 ≤ other) :
    parseCollection (parseTo world config limit) world config kind.collection (some element) path
        sample (.list lefts) =
      parseCollection (parseTo world config other) world config kind.collection (some element) path
        sample (.list rights) := by
  rw [parseCollection_eq, parseCollection_eq]
  refine bind_congr fun empty => ?_
  refine Run.bind_congr_yields fun {_ first _} found => ?_
  obtain ⟨rfl, _⟩ := (Heap.first_yields shape).mp found
  exact parseElements_alike alike typed covered same inLeft inRight deep more

end Alike

theorem parsesAlike (builtIn : world.BuiltIn root) (discreet : world.Discreet root) (depth : Nat) :
    ParsesAlike world config root depth := by
  induction depth with
  | zero =>
      intro type path sample left right fitting fitted levels limit other _ _ _ within
      exact within.elim
  | succ depth ih =>
      intro type path sample left right fitting fitted levels limit other typed covered same inLeft
        inRight fit deep more
      obtain ⟨levels, rfl⟩ := inRight.succ
      obtain ⟨limit, rfl⟩ : ∃ below, limit = below + 1 := ⟨limit - 1, by omega⟩
      obtain ⟨other, rfl⟩ : ∃ below, other = below + 1 := ⟨other - 1, by omega⟩
      cases typed with
      | plain none single =>
          cases same with
          | same => rw [parseTo_primitive, parseTo_primitive]
          | elements other _ _ => cases none.symm.trans other
          | object record _ => simp [Heap.isRecord, record] at single
      | @record _ recordClass _ shape =>
          obtain ⟨used, _⟩ := covered recordClass (.record shape)
          simp only [parseTo, parseObject_of_record shape]
          refine validateWith_alike builtIn discreet used ih ?_ inLeft inRight (by omega) (by omega)
          cases same with
          | same => exact .same
          | elements other _ _ => simp [Heap.gathering?, shape] at other
          | object record inner =>
              cases shape.symm.trans record
              exact inner
      | unchecked shape =>
          cases same with
          | elements other _ _ => cases shape.symm.trans other
          | object record _ => simp [Heap.gathering?, record] at shape
          | same =>
              refine parseCollection_congr fun first _ _ _ _ => ?_
              simp [Heap.first_yields shape] at first
      | elements shape inner =>
          have covers := covered.representative shape
          cases same with
          | object record _ => simp [Heap.gathering?, record] at shape
          | elements other length each =>
              cases shape.symm.trans other
              have pairwise := List.forall₂_iff_zip.mpr ⟨length, fun member => each _ member⟩
              exact parseCollection_alike ih shape inner covers pairwise inLeft inRight (by omega)
                (by omega)
          | same =>
              refine parseCollection_congr fun first bound listed member fitted => ?_
              obtain ⟨same, _⟩ := (Heap.first_yields shape).mp first
              cases same
              obtain ⟨rfl, _⟩ := Run.yields_pure.mp bound
              have accepted := accepted_of_toParse (.elements shape inner) shape fit
              have part := Heap.mem_parts_of_iterate accepted listed member
              exact ih inner covers .same (inLeft _ part) (inRight _ part) fitted (by omega)
                (by omega)

end Validation

/-- Keys that no field looks up make no difference, nor does the order of keys, nor whether a key is
absent or null, at any depth: the same record or the same failure comes of two documents that are
interchangeable for a schema, with the same warnings, and the hooks see the same. -/
theorem World.validateAt_interchangeable {world : World} {config : Configuration} {schema : Schema}
    {location : String} {left right : Value} (builtIn : world.BuiltIn schema)
    (discreet : world.Discreet schema) (one : left.isDocument = true)
    (other : right.isDocument = true)
    (alike : InterchangeableFor world config schema left right) :
    world.validateAt config schema location left = world.validateAt config schema location right := by
  have positive (value : Value) : ∃ depth, value.depth = depth + 1 :=
    ⟨value.depth - 1, by cases value <;> simp [Value.depth]⟩
  obtain ⟨depth, deep⟩ := positive left
  obtain ⟨levels, more⟩ := positive right
  have inLeft : world.heap.Within left.depth left := Heap.within_of_isDocument one
  have inRight : world.heap.Within right.depth right := Heap.within_of_isDocument other
  rw [deep] at inLeft
  rw [more] at inRight
  refine Validation.validateWith_alike builtIn discreet .root
    (Validation.parsesAlike builtIn discreet depth) alike inLeft inRight ?_ ?_
  · simp only [Validation.limit, Heap.reach, deep]
    omega
  · simp only [Validation.limit, Heap.reach, more]
    omega

namespace Nodes

/-- The pair of nodes in another order, with keys that nodes do not have and nulls for what is not
there. -/
def cluttered : Value :=
  .mapping [(.text "color", .text "red"),
    (.text "next", .mapping [(.text "tags", .list [.text "d"]), (.text "home", .null),
      (.text "value", .text "c"), (.text "size", .list [.int 1])]),
    (.text "tags", .list [.text "b"]), (.text "value", .text "a")]

theorem discreet : world.Discreet schema := by
  intro used compiled field reached known member
  refine of_fields ?_ reached known member
  simp only [fields, List.forall_mem_cons, List.not_mem_nil, false_implies, implies_true, and_true]
  refine ⟨?_, ?_, ?_, ?_⟩ <;> exact {
    plain := fun _ => ⟨rfl, rfl, rfl, rfl⟩
    unbounded := by
      intro record
      cases record <;> exact ⟨rfl, rfl⟩
    stored := fun declared => absurd rfl declared }

/-- Objects are interchangeable for nodes if they are under each of the four names. -/
theorem interchangeable_of_names {config : Configuration} {lefts rights : List (Value × Value)}
    (keys : config.keys = .identity)
    (each : ∀ field ∈ fields, Interchangeable world config field.sample
      (Validation.entryUnder field.name lefts) (Validation.entryUnder field.name rights)) :
    InterchangeableFor world config schema (.mapping lefts) (.mapping rights) := by
  refine .fields fun compiled field key before after known member named => ?_
  cases known
  rw [keys] at named
  rw [(Run.yields_pure.mp named).1]
  exact each field member

theorem interchangeable : InterchangeableFor world (world.config 0) schema pair cluttered := by
  refine interchangeable_of_names rfl ?_
  simp only [fields, List.forall_mem_cons, List.not_mem_nil, false_implies, implies_true, and_true]
  have node : ∃ stored, world.heap.look (.ref 0) = .record nodeClass stored := ⟨_, rfl⟩
  obtain ⟨_, node⟩ := node
  refine ⟨.same, .same, .object node (interchangeable_of_names rfl ?_), .same⟩
  simp only [fields, List.forall_mem_cons, List.not_mem_nil, false_implies, implies_true, and_true]
  exact ⟨.same, .same, .same, .same⟩

end Nodes

theorem World.validateAt_interchangeable_nodes :
    Nodes.pair.isDocument = true ∧ Nodes.cluttered.isDocument = true ∧
    InterchangeableFor Nodes.world (Nodes.world.config 0) Nodes.schema Nodes.pair
      Nodes.cluttered ∧
    Nodes.world.validateAt (Nodes.world.config 0) Nodes.schema "" Nodes.pair =
      Nodes.world.validateAt (Nodes.world.config 0) Nodes.schema "" Nodes.cluttered :=
  ⟨rfl, rfl, Nodes.interchangeable,
    World.validateAt_interchangeable Nodes.builtIn Nodes.discreet rfl rfl Nodes.interchangeable⟩

end Exemplar
