import Exemplar.Proofs.Conformance
import Exemplar.Proofs.Checks
import Exemplar.Proofs.Numbers

/-!
What size bounds promise about stored collections. The bounds of a field are checked against its
input, before any element is looked at. What is stored for it has the size that was measured, less
the elements that the policy leaves out: an upper bound holds of every stored collection, a lower
bound once the elements left out are counted as well.
-/

namespace Exemplar

namespace Gathering

variable {heap : Heap} {kind : Gathering} {elements values grown : List Value} {value : Value}
  {before after : Trace} {count : Nat}

theorem gather_array : Gathering.array.gather heap elements values = .ok (elements ++ values) := by
  induction values generalizing elements with
  | nil => simp [gather]
  | cons value rest ih => simp [gather, add, ih]

theorem gather_set : Gathering.set.gather heap elements values = heap.distinct elements values := by
  induction values generalizing elements with
  | nil => rfl
  | cons value rest ih =>
      simp only [gather, Heap.distinct, add]
      cases heap.addMember elements value with
      | error fault => rfl
      | ok grown => exact ih

theorem length_add_le (added : kind.add heap elements value = .ok grown) :
    grown.length ≤ elements.length + 1 := by
  cases kind with
  | array =>
      cases added
      simp
  | set =>
      simp only [add, Heap.addMember] at added
      split at added
      next => cases added
      next =>
        cases added
        split <;> simp

theorem length_add_of_array (array : kind = .array)
    (added : kind.add heap elements value = .ok grown) : grown.length = elements.length + 1 := by
  subst array
  cases added
  simp

theorem length_gather_le (gathered : kind.gather heap elements values = .ok grown) :
    grown.length ≤ elements.length + values.length := by
  induction values generalizing elements with
  | nil =>
      cases gathered
      simp
  | cons value rest ih =>
      simp only [gather] at gathered
      split at gathered
      next => cases gathered
      next next added =>
        have first := length_add_le added
        have others := ih gathered
        simp only [List.length_cons]
        omega

theorem length_of_iterate (accepted : kind.collection.accepts (heap.look value) = true)
    (listed : heap.iterate value = .ok values) : heap.length? value = some values.length := by
  cases kind <;> cases shape : heap.look value <;>
    simp_all [Heap.iterate, Heap.elements?, Heap.length?, collection, Collection.array,
      Collection.set, Collection.isSequence, Collection.isAnySet]

/-- The size of an input is that of the collection it makes, if it makes one, and the number of its
elements otherwise. -/
theorem size_yields (accepted : kind.collection.accepts (heap.look value) = true)
    (listed : heap.iterate value = .ok values)
    (sized : (kind.collection.size heap value).Yields before count after) :
    (∃ grown, kind.gather heap [] values = .ok grown ∧ count = grown.length) ∨
      (∀ grown, kind.gather heap [] values ≠ .ok grown) ∧ count = values.length := by
  have places := length_of_iterate accepted listed
  cases kind with
  | array =>
      have measured : (Measure.length heap value).Yields before count after := sized
      simp only [Measure.length, places, Run.yields_pure] at measured
      exact .inl ⟨values, by simp [gather_array], measured.1⟩
  | set =>
      have within : heap.elements? value = some values := by
        unfold Heap.iterate at listed
        split at listed
        next found =>
          cases listed
          exact found
        next => cases listed
      simp only [Collection.size, collection, Collection.set, within] at sized
      rw [gather_set]
      split at sized
      next members found => exact .inl ⟨members, found, (Run.yields_pure.mp sized).1⟩
      next => simp at sized
      next fault _ found =>
        simp only [Measure.length, places, Run.yields_pure] at sized
        exact .inr ⟨fun grown made => by simp [made] at found, sized.1⟩

theorem size_of_gather (accepted : kind.collection.accepts (heap.look value) = true)
    (listed : heap.iterate value = .ok values)
    (gathered : kind.gather heap [] values = .ok grown)
    (sized : (kind.collection.size heap value).Yields before count after) :
    count = grown.length := by
  rcases size_yields accepted listed sized with ⟨other, same, rfl⟩ | ⟨none, _⟩
  · cases gathered.symm.trans same
    rfl
  · exact absurd gathered (none grown)

theorem size_le (accepted : kind.collection.accepts (heap.look value) = true)
    (listed : heap.iterate value = .ok values)
    (sized : (kind.collection.size heap value).Yields before count after) :
    count ≤ values.length := by
  rcases size_yields accepted listed sized with ⟨grown, gathered, rfl⟩ | ⟨_, rfl⟩
  · simpa using length_gather_le gathered
  · exact Nat.le_refl _

/-- Elements that count as numbers are put in as the numbers they are stored as. -/
theorem add_parse {sample : Value} :
    kind.add heap (elements.map (Primitive.parse heap sample)) (Primitive.parse heap sample value) =
      (kind.add heap elements value).map (·.map (Primitive.parse heap sample)) := by
  cases kind with
  | array => simp [add, Except.map]
  | set => exact Primitive.addMember_parse

end Gathering

/-- What has a hash is neither a collection nor a record. -/
theorem Heap.hash_of_parts {heap : Heap} {value : Value} {hash : Nat}
    (hashed : heap.hash? value = .ok hash) :
    heap.isRecord value = false ∧
      ∀ kind members, heap.look value ≠ Gathering.wrap kind members := by
  unfold Heap.hash? Heap.reach at hashed
  constructor
  · unfold Heap.isRecord
    cases shape : heap.look value <;> simp_all [Heap.hashTo, Value.quantity?]
  · intro kind members shape
    cases kind <;> simp_all [Heap.hashTo, Value.quantity?, Gathering.wrap]

theorem Heap.hash_of_mapping {heap : Heap} {value : Value} {entries : List (Value × Value)}
    (shape : heap.look value = .mapping entries) :
    heap.hash? value = .error (.unhashable "dict") := by
  simp only [hash?, reach, hashTo, shape]
  rfl

section Counting

variable {world : World} {config : Configuration} {before after : Trace} {limit : Nat}

theorem gather_of_plain {type : Primitive} {kind : Gathering} {sample : Value} {path : String}
    {index dropped : Nat} {values : List Value} {result : Value} (gathered : List Value)
    (passes : Validation.Passes (Validation.parseTo world config limit) world.heap config
      kind.collection (.primitive type) sample path index
      (kind.wrap (gathered.map (Primitive.parse world.heap sample))) values before (.ok result)
      dropped after) :
    ∃ grown, kind.gather world.heap gathered values = .ok grown ∧
      result = kind.wrap (grown.map (Primitive.parse world.heap sample)) ∧ dropped = 0 := by
  induction values generalizing index gathered before dropped with
  | nil =>
      cases passes
      exact ⟨gathered, rfl, rfl, rfl⟩
  | cons value rest ih =>
      cases passes with
      | settled fit _ _ =>
          simp only [ValueType.fit, Primitive.fit, Run.yields_pure] at fit
          split at fit <;> cases fit.1
      | parsed _ parsed inserted passes =>
          simp only [Validation.parseTo_primitive, Run.yields_pure, Except.ok.injEq] at parsed
          obtain ⟨rfl, rfl⟩ := parsed
          obtain ⟨grown, added, rfl, rfl⟩ := Gathering.insert_yields.mp inserted
          rw [Gathering.add_parse] at added
          cases taken : kind.add world.heap gathered value with
          | error fault => simp [taken, Except.map] at added
          | ok kept =>
              simp only [taken, Except.map, Except.ok.injEq] at added
              subst added
              simpa only [Gathering.gather, taken] using ih kept passes
      | skipped _ parsed _ _ _ => simp at parsed

/-- A collection is gathered from its elements; every element of an array is put in or left out. -/
theorem counts_of_passes {parse : Parse} {element : ValueType} {kind : Gathering} {sample : Value}
    {path : String} {index dropped : Nat} {gathered values : List Value} {result : Value}
    (passes : Validation.Passes parse world.heap config kind.collection element sample path index
      (kind.wrap gathered) values before (.ok result) dropped after) :
    ∃ members, result = kind.wrap members ∧
      (kind = .array → members.length + dropped = gathered.length + values.length) := by
  induction values generalizing index gathered before dropped with
  | nil =>
      cases passes
      exact ⟨gathered, rfl, fun _ => rfl⟩
  | cons value rest ih =>
      cases passes with
      | settled _ inserted passes | parsed _ _ inserted passes =>
          obtain ⟨grown, added, rfl, rfl⟩ := Gathering.insert_yields.mp inserted
          obtain ⟨members, rfl, others⟩ := ih passes
          refine ⟨members, rfl, fun array => ?_⟩
          have counted := others array
          have longer := Gathering.length_add_of_array array added
          simp only [List.length_cons]
          omega
      | skipped _ _ _ _ passes =>
          obtain ⟨members, rfl, others⟩ := ih passes
          refine ⟨members, rfl, fun array => ?_⟩
          have counted := others array
          simp only [List.length_cons]
          omega

theorem compound_of_parses {path : String} {sample value parsed : Value} {dropped : Nat}
    (identity : config.finisher.finish = Finisher.identity.finish)
    (compound : ¬ IsPlain world sample)
    (parses : Parses world config path sample value before limit (.ok parsed) dropped after) :
    world.heap.isRecord parsed = true ∨
      ∃ kind members, world.heap.look parsed = Gathering.wrap kind members := by
  generalize finished : (Except.ok parsed : Outcome) = outcome at parses
  cases parses with
  | plain bare single => exact absurd ⟨bare, single⟩ compound
  | record shape nested =>
      subst finished
      cases Validation.validates_of_validateWith nested with
      | settled look _ => exact .inl (by simp [Heap.isRecord, look])
      | built _ _ _ finished =>
          rw [identity] at finished
          obtain ⟨rfl, rfl⟩ := Run.yields_pure.mp finished
          exact .inl rfl
  | @unchecked _ kind _ grown _ _ _ =>
      cases finished
      exact .inr ⟨kind, grown, Gathering.look_wrap⟩
  | @passed _ kind _ _ _ _ _ _ _ _ _ _ passes =>
      subst finished
      obtain ⟨members, rfl, _⟩ := counts_of_passes passes
      exact .inr ⟨kind, members, Gathering.look_wrap⟩

/-- Nothing compound can be put into a set, so all of it is left out. -/
theorem none_of_compound {element : ValueType} {sample : Value} {path : String}
    {index dropped : Nat} {gathered values : List Value} {result : Value}
    (identity : config.finisher.finish = Finisher.identity.finish)
    (typed : world.heap.Typed sample element) (compound : ¬ IsPlain world sample)
    (passes : Validation.Passes (Validation.parseTo world config limit) world.heap config
      Collection.set element sample path index (.set gathered) values before (.ok result) dropped
      after) :
    result = .set gathered ∧ dropped = values.length := by
  -- A set takes in only what has a hash, and no collection or record has one.
  have refuse {value next : Value} {first last : Trace}
      (inserted : (Gathering.set.collection.insert world.heap (Gathering.set.wrap gathered)
        value).Yields first next last) :
      world.heap.isRecord value = false ∧
        ∀ kind members, world.heap.look value ≠ Gathering.wrap kind members := by
    obtain ⟨grown, added, _⟩ := Gathering.insert_yields.mp inserted
    simp only [Gathering.add, Heap.addMember] at added
    split at added
    next => cases added
    next hash hashed => exact Heap.hash_of_parts hashed
  induction values generalizing index before dropped with
  | nil =>
      cases passes
      exact ⟨rfl, rfl⟩
  | cons value rest ih =>
      cases passes with
      | settled fit inserted _ =>
          have record := (record_of_settled typed fit).2
          simp [(refuse inserted).1] at record
      | parsed _ parsed inserted _ =>
          obtain ⟨_, parses⟩ := parses_of_parseTo typed parsed
          rcases compound_of_parses identity compound parses with record | ⟨kind, members, shape⟩
          · simp [(refuse inserted).1] at record
          · exact absurd shape ((refuse inserted).2 kind members)
      | skipped _ _ _ _ passes =>
          obtain ⟨rfl, rfl⟩ := ih passes
          exact ⟨rfl, rfl⟩

/-- The members have the size that the value was measured to have, less the elements left out. -/
def SizedAs (world : World) (kind : Gathering) (value : Value) (members : List Value)
    (dropped : Nat) : Prop :=
  ∀ {first count last}, (kind.collection.size world.heap value).Yields first count last →
    members.length ≤ count ∧ count ≤ members.length + dropped

theorem sized_of_gather {kind : Gathering} {value : Value} {values members stored : List Value}
    (accepted : kind.collection.accepts (world.heap.look value) = true)
    (listed : world.heap.iterate value = .ok values)
    (gathered : kind.gather world.heap [] values = .ok members)
    (kept : stored.length = members.length) : SizedAs world kind value stored 0 := by
  intro first count last sized
  rw [Gathering.size_of_gather accepted listed gathered sized, kept]
  exact ⟨Nat.le_refl _, Nat.le_refl _⟩

theorem sized_of_passes {kind : Gathering} {element : ValueType} {sample value result : Value}
    {path : String} {values : List Value} {dropped : Nat}
    (typed : world.heap.Typed sample element)
    (accepted : kind.collection.accepts (world.heap.look value) = true)
    (listed : world.heap.iterate value = .ok values)
    (identity : config.finisher.finish = Finisher.identity.finish)
    (passes : Validation.Passes (Validation.parseTo world config limit) world.heap config
      kind.collection element sample path 0 (kind.wrap []) values before (.ok result) dropped
      after) :
    ∃ members, result = kind.wrap members ∧ SizedAs world kind value members dropped := by
  cases kind with
  | array =>
      obtain ⟨members, rfl, counted⟩ := counts_of_passes passes
      refine ⟨members, rfl, fun sized => ?_⟩
      have placed := counted rfl
      rw [Gathering.size_of_gather accepted listed Gathering.gather_array sized]
      simp only [List.nil_append, List.length_nil] at placed ⊢
      omega
  | set =>
      -- The size is that of the set of the elements as they come in. Plain elements are stored as
      -- equals of what came in; nothing else is stored at all.
      by_cases plain : IsPlain world sample
      · cases typed.unique (.plain plain.1 plain.2)
        obtain ⟨grown, gathered, rfl, rfl⟩ := gather_of_plain [] passes
        exact ⟨_, rfl, sized_of_gather accepted listed gathered (by simp)⟩
      · obtain ⟨rfl, rfl⟩ := none_of_compound identity typed plain passes
        refine ⟨[], rfl, fun sized => ?_⟩
        have fewer := Gathering.size_le accepted listed sized
        simpa using fewer

theorem sized_of_parses {kind : Gathering} {samples : List Value} {path : String}
    {sample value stored : Value} {dropped : Nat}
    (shape : world.heap.gathering? sample = some (kind, samples))
    (accepted : kind.collection.accepts (world.heap.look value) = true)
    (identity : config.finisher.finish = Finisher.identity.finish)
    (parses : Parses world config path sample value before limit (.ok stored) dropped after) :
    ∃ members, stored = kind.wrap members ∧ SizedAs world kind value members dropped := by
  generalize finished : (Except.ok stored : Outcome) = outcome at parses
  cases parses with
  | plain bare _ => cases bare.symm.trans shape
  | record look _ => simp [Heap.gathering?, look] at shape
  | @unchecked _ _ _ grown other listed gathered =>
      cases finished
      cases shape.symm.trans other
      exact ⟨grown, rfl, sized_of_gather accepted listed gathered rfl⟩
  | passed other typed listed passes =>
      subst finished
      cases shape.symm.trans other
      exact sized_of_passes typed accepted listed identity passes

theorem Parses.dropped_eq_zero {path : String} {sample value : Value} {outcome : Outcome}
    {dropped : Nat}
    (parses : Parses world config path sample value before limit outcome dropped after)
    (strict : config.lenient = false) : dropped = 0 := by
  cases parses with
  | plain _ _ | record _ _ | unchecked _ _ _ => rfl
  | passed _ _ _ passes => exact passes.dropped_eq_zero strict

end Counting

theorem Heap.Typed.measured {heap : Heap} {sample : Value} {type : ValueType} {kind : Gathering}
    {samples : List Value} (typed : heap.Typed sample type)
    (shape : heap.gathering? sample = some (kind, samples)) :
    type.measure.size = kind.collection.size := by
  obtain ⟨_, rfl⟩ | ⟨_, _, _, _, rfl, _⟩ := typed.of_gathering shape <;> rfl

namespace Field

variable {world : World} {field : Field} {kind : Gathering} {samples : List Value} {side : Side}
  {limit value : Value} {before after : Trace}

/-- A bound on sized values is checked on the size that the type of the field measures. -/
theorem CompiledBy.bySize_mem {catalogue : Catalogue} {earlier : Heap}
    (compiled : field.CompiledBy catalogue earlier)
    (sized : earlier.hasSize field.sample = true)
    (declared : field.declaration.bound side = some limit) :
    .bySize side (Check.sizeWord (earlier.look field.sample)) limit field.type.measure.size ∈
      field.checks := by
  obtain ⟨_, _, _, _, checks⟩ := Check.compile_eq compiled.checked
  have member : .bySize side (Check.sizeWord (earlier.look field.sample)) limit
      field.type.measure.size ∈ Check.boundChecks earlier field.sample field.type.measure side
        (field.declaration.bound side) :=
    Check.mem_boundChecks.mpr ⟨limit, declared, .inl ⟨sized, rfl⟩⟩
  rw [checks]
  cases side <;> simp_all [Declaration.bound]

/-- A value that passes was measured, and its size is not beyond the bound. -/
theorem CompiledBy.order_of_pass {catalogue : Catalogue} {earlier heap : Heap} (side : Side)
    (compiled : field.CompiledBy catalogue earlier)
    (sized : earlier.hasSize field.sample = true)
    (declared : field.declaration.bound side = some limit)
    (passed : (field.firstFailure heap value).Yields before .pass after) :
    ∃ count first last, (field.type.measure.size heap value).Yields first count last ∧
      heap.order side (.int count) limit = .ok false := by
  obtain ⟨first, last, applied⟩ :=
    pass_of_firstFailureOf passed _ (compiled.bySize_mem sized declared)
  simp only [Check.apply, Run.yields_bind, Run.yields_lift] at applied
  obtain ⟨count, middle, measured, beyond, _, ⟨compared, rfl⟩, answered⟩ := applied
  refine ⟨count, first, _, measured, ?_⟩
  rw [compared]
  cases beyond with
  | false => rfl
  | true => simp at answered

theorem size_of_pass {limited : Int} (side : Side)
    (compiled : field.CompiledBy Catalogue.builtIn world.heap)
    (shape : world.heap.gathering? field.sample = some (kind, samples))
    (declared : field.declaration.bound side = some limit)
    (counts : world.heap.CountsAs limit limited)
    (passed : (field.firstFailure world.heap value).Yields before .pass after) :
    ∃ count first last, (kind.collection.size world.heap value).Yields first count last ∧
      side.ask (fun left right => decide (left < right)) (count : Int) limited = false := by
  obtain ⟨count, first, last, measured, within⟩ :=
    compiled.order_of_pass side (Heap.hasSize_of_gathering shape) declared passed
  rw [compiled.typed.measured shape] at measured
  rw [Heap.order_of_counts counts, Except.ok.injEq] at within
  exact ⟨count, first, last, measured, within⟩

end Field

section Bounds

variable {world : World} {config : Configuration} {before after : Trace}

/-- The bounds of a collection field hold of what is stored for it: no more elements than the
maximum, and no fewer than the minimum once the elements are counted that the policy has left out of
this collection. -/
def KeepsBounds (world : World) (config : Configuration) (limit : Nat) (path : String)
    (entries : List (Value × Value)) (field : Field) (stored : Value) : Prop :=
  ∀ kind samples, world.heap.gathering? field.sample = some (kind, samples) →
    ∃ members dropped value first middle last, stored = kind.wrap members ∧
      Validation.Admitted world config field path entries first value .toParse middle ∧
      Parses world config path field.sample value middle limit (.ok stored) dropped last ∧
      (config.lenient = false → dropped = 0) ∧
      (∀ minimum low, field.declaration.minimum = some minimum →
        world.heap.CountsAs minimum low → low ≤ members.length + dropped) ∧
      ∀ maximum high, field.declaration.maximum = some maximum →
        world.heap.CountsAs maximum high → members.length ≤ high

theorem keepsBounds_of_settles {limit : Nat} {path : String} {entries : List (Value × Value)}
    {field : Field} {stored : Value} (compiled : field.CompiledBy Catalogue.builtIn world.heap)
    (identity : config.finisher.finish = Finisher.identity.finish)
    (settles : Validation.Settles (Validation.parseTo world config limit) world config field path
      entries before (.stored stored) after) :
    KeepsBounds world config limit path entries field stored := by
  intro kind samples shape
  cases settles with
  | unsought sought => cases sought
  | settled admitted =>
      obtain ⟨_, fit, _⟩ := admitted
      have record := (record_of_settled compiled.typed fit).1
      have typed := compiled.typed
      rw [record] at typed
      cases typed with
      | record other => simp [Heap.gathering?, other] at shape
  | @parsed value middle _ _ admitted parsed =>
      obtain ⟨dropped, parses⟩ := parses_of_parseTo compiled.typed parsed
      have admitted' := admitted
      obtain ⟨_, fit, passed⟩ := admitted'
      obtain ⟨members, rfl, sized⟩ :=
        sized_of_parses shape (accepted_of_toParse compiled.typed shape fit) identity parses
      refine ⟨members, dropped, _, _, _, _, rfl, admitted, parses, parses.dropped_eq_zero, ?_, ?_⟩
      · intro minimum low declared counts
        obtain ⟨count, _, _, measured, within⟩ :=
          Field.size_of_pass .below compiled shape declared counts passed
        have close := sized measured
        simp only [Side.ask, decide_eq_false_iff_not] at within
        omega
      · intro maximum high declared counts
        obtain ⟨count, _, _, measured, within⟩ :=
          Field.size_of_pass .above compiled shape declared counts passed
        have close := sized measured
        simp only [Side.ask, decide_eq_false_iff_not] at within
        omega

theorem fills_keep_bounds {limit : Nat} {location : String} {entries : List (Value × Value)}
    {fields : List Field} {stored : List (String × Value)}
    (compiled : ∀ field ∈ fields, field.CompiledBy Catalogue.builtIn world.heap)
    (identity : config.finisher.finish = Finisher.identity.finish)
    (fills : Validation.Fills (Validation.parseTo world config limit) world config location entries
      fields before (.ok stored) after) :
    ∃ present, present.Sublist fields ∧ List.Forall₂ (fun field entry => entry.1 = field.name ∧
      KeepsBounds world config limit (Validation.fieldPath location field.name) entries field
        entry.2) present stored := by
  induction fields generalizing before stored with
  | nil =>
      cases fills
      exact ⟨[], .slnil, .nil⟩
  | cons field rest ih =>
      simp only [List.forall_mem_cons] at compiled
      rcases fills.cons_ok with ⟨_, _, later⟩ | ⟨value, _, _, guarded, later, rfl⟩
      · obtain ⟨present, sublist, kept⟩ := ih compiled.2 later
        exact ⟨present, sublist.cons field, kept⟩
      · obtain ⟨present, sublist, kept⟩ := ih compiled.2 later
        have settles := Validation.settles_of_guardField guarded (by simp)
        exact ⟨field :: present, sublist.cons_cons field,
          .cons ⟨rfl, keepsBounds_of_settles compiled.1 identity settles⟩ kept⟩

/-- The record of a successful run keeps the bounds of each collection field that is present in
it. -/
theorem validateAt_keeps_bounds {schema : Schema} {location : String} {data value : Value}
    (builtIn : world.BuiltIn schema)
    (identity : config.finisher.finish = Finisher.identity.finish)
    (fresh : world.heap.isRecord data = false)
    (ran : (world.validateAt config schema location data).Yields before (.ok value) after) :
    ∃ compiled entries stored present, schema.compiled = some compiled ∧
      world.heap.look data = .mapping entries ∧ value = .record schema.recordClass stored ∧
      present.Sublist compiled.fields ∧
      List.Forall₂ (fun field entry => entry.1 = field.name ∧
        KeepsBounds world config (Validation.limit world data)
          (Validation.fieldPath location field.name) entries field entry.2) present stored := by
  cases Validation.validates_of_validateWith ran with
  | settled shape _ => simp [Heap.isRecord, shape] at fresh
  | @built compiled entries stored _ _ _ known mapping fills finished =>
      rw [identity] at finished
      obtain ⟨rfl, rfl⟩ := Run.yields_pure.mp finished
      obtain ⟨present, sublist, kept⟩ :=
        fills_keep_bounds (fun _ => builtIn.fields .root known) identity fills
      exact ⟨compiled, entries, stored, present, known, mapping, rfl, sublist, kept⟩

end Bounds

/-! Grids of two rows of texts or more. A row that holds anything else is left out after the rows
have been counted. -/

namespace Grids

def gridClass : RecordClass := ⟨1, "Grid", [1, 0]⟩

def heap : Heap :=
  ⟨#[.record gridClass [("rows", .ref 1)], .list [.ref 2], .list [.text ""]]⟩

def declaration : Declaration := { sample := .ref 1, minimum := some (.int 2) }

def rows : Field :=
  ⟨"rows", declaration, .ref 1, .bound .array (.bound .array (.primitive .fallback)),
    [.bySize .below "length" (.int 2) Collection.array.size]⟩

def schema : Schema where
  recordClass := gridClass
  body := [("rows", declaration)]
  declarations := [("rows", declaration)]
  ancestry := [1, 0]
  config := none
  compiled := some (.of [rows] 0 (.ref 0))

def world : World where
  heap := heap
  schemas := #[.root, schema]
  configs := #[{ catalogue := 0 }]
  catalogues := #[Catalogue.builtIn]
  default := 0

/-- One row of texts and one that holds a number. -/
def mixed : Value :=
  .mapping [(.text "rows", .list [.list [.text "a"], .list [.int 1]])]

theorem selfContained : world.SelfContained schema (.of [rows] 0 (.ref 0)) where
  known := rfl
  classes := by
    intro field member recordClass stands
    rw [List.mem_singleton.mp member] at stands
    rcases stands with shape | ⟨shape, stands⟩ <;> cases shape
    rcases stands with shape | ⟨shape, stands⟩ <;> cases shape
    rcases stands with shape | ⟨shape, _⟩ <;> cases shape

theorem builtIn : world.BuiltIn schema := by
  refine selfContained.builtIn ?_
  simp only [List.mem_singleton, forall_eq]
  exact ⟨[], [], rfl⟩

end Grids

/-- The row that holds a number is left out, and only together with it are there two rows. -/
theorem validateAt_keeps_bounds_grids :
    ∃ dropped value first middle last,
      Validation.Admitted Grids.world (Grids.world.config 0) Grids.rows "rows"
        [(.text "rows", .list [.list [.text "a"], .list [.int 1]])] first value .toParse middle ∧
      Parses Grids.world (Grids.world.config 0) "rows" (.ref 1) value middle
        (Validation.limit Grids.world Grids.mixed) (.ok (.list [.list [.text "a"]])) dropped last ∧
      2 ≤ 1 + dropped := by
  have ran : ∃ after, (Grids.world.validateAt (Grids.world.config 0) Grids.schema ""
      Grids.mixed).Yields [] (.ok (.record Grids.gridClass
        [("rows", .list [.list [.text "a"]])])) after := ⟨_, rfl⟩
  obtain ⟨after, ran⟩ := ran
  obtain ⟨compiled, entries, stored, present, known, mapping, same, sublist, kept⟩ :=
    validateAt_keeps_bounds Grids.builtIn rfl rfl ran
  cases known
  cases mapping
  cases same
  cases kept with
  | cons first rest =>
      cases rest
      have whole := sublist.eq_of_length rfl
      cases whole
      obtain ⟨members, dropped, value, first, middle, last, stored, admitted, parses, _, least,
        _⟩ := first.2 .array [.ref 2] rfl
      cases stored
      have enough := least (.int 2) 2 rfl rfl
      simp only [List.length_singleton] at enough
      exact ⟨dropped, value, first, middle, last, admitted, parses, by omega⟩

/-- Taken by itself, what is stored can be smaller than the minimum. -/
theorem stored_below_minimum :
    ¬ ∀ {world : World} {config : Configuration} {schema : Schema} {data : Value}
      {recordClass : RecordClass} {stored : List (String × Value)} {before after : Trace}
      {compiled : Compiled} {field : Field} {kind : Gathering} {samples members : List Value}
      {minimum : Value} {low : Int},
      world.BuiltIn schema → config.finisher.finish = Finisher.identity.finish →
      world.heap.RecordFree data →
      (world.validateAt config schema "" data).Yields before (.ok (.record recordClass stored))
        after →
      schema.compiled = some compiled → field ∈ compiled.fields →
      world.heap.gathering? field.sample = some (kind, samples) →
      field.declaration.minimum = some minimum → world.heap.CountsAs minimum low →
      (field.name, kind.wrap members) ∈ stored → low ≤ members.length := by
  intro claim
  have ran : ∃ after, (Grids.world.validateAt (Grids.world.config 0) Grids.schema ""
      Grids.mixed).Yields [] (.ok (.record Grids.gridClass
        [("rows", .list [.list [.text "a"]])])) after := ⟨_, rfl⟩
  obtain ⟨after, ran⟩ := ran
  have enough : (2 : Int) ≤ [Value.list [.text "a"]].length :=
    claim Grids.builtIn rfl (Heap.recordFree_of_isDocument (by decide)) ran rfl
      (List.mem_singleton.mpr rfl : Grids.rows ∈ [Grids.rows])
      (rfl : Grids.world.heap.gathering? Grids.rows.sample = some (.array, [.ref 2])) rfl rfl
      (List.mem_singleton.mpr rfl)
  exact absurd enough (by decide)

end Exemplar
