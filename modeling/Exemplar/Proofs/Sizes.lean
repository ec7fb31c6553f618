import Exemplar.Proofs.BigIntegers
import Exemplar.Proofs.Leftovers
import Exemplar.Proofs.Steadiness

/-!
The size that is measured and the size that comes out. An upper bound of a collection is checked on
its input, so it holds of what is stored only if parsing never makes more of the elements than were
counted. An array takes each element in once or leaves it out. A set is counted without equal
elements where all have hashes: then equal elements must be stored as equals, which is a matter of
the type of the elements. Where some element has no hash all of them are counted.
-/

namespace Exemplar

/-- The collection is that of arrays or that of sets. -/
def Collection.IsGathering (collection : Collection) : Prop :=
  ∃ kind : Gathering, collection = kind.collection

section Hashes

variable {heap : Heap} {value : Value} {members rest grown : List Value}

theorem Heap.addMember_ok (added : heap.addMember members value = .ok grown) :
    (∃ hash, heap.hash? value = .ok hash) ∧
      grown = if heap.isAmong value members then members else members ++ [value] := by
  simp only [addMember] at added
  split at added
  next => cases added
  next hash hashed => exact ⟨⟨hash, hashed⟩, (Except.ok.inj added).symm⟩

theorem Heap.distinct_cons (taken : heap.distinct members (value :: rest) = .ok grown) :
    ∃ next, heap.addMember members value = .ok next ∧ heap.distinct next rest = .ok grown := by
  simp only [distinct] at taken
  split at taken
  next => cases taken
  next next added => exact ⟨next, added, taken⟩

theorem Heap.isAmong_append {more : List Value} (among : heap.isAmong value members = true) :
    heap.isAmong value (members ++ more) = true := by
  simp only [isAmong, List.any_append, Bool.or_eq_true]
  exact .inl among

end Hashes

namespace BigInteger

variable {heap : Heap} {value other stored : Value} {path : String} {whole number : Int}

/-- The value is one of the forms in which a field of big integers takes the integer. -/
inductive Reads (heap : Heap) (value : Value) (whole : Int) : Prop
  | int : heap.look value = .int whole → Reads heap value whole
  | bigInteger : heap.look value = .bigInteger whole → Reads heap value whole
  | text {text : String} : heap.look value = .text text →
      Number.isPlainNumeral (Text.strip text) = true → Heap.integerOfText text = .ok whole →
      Reads heap value whole

theorem Reads.unique (one : Reads heap value whole) (two : Reads heap value number) :
    whole = number := by
  rcases one with one | one | ⟨one, _, read⟩ <;> rcases two with two | two | ⟨two, _, same⟩ <;>
    cases one.symm.trans two
  · rfl
  · rfl
  · exact Except.ok.inj (read.symm.trans same)

/-- The shape of the value is one that a field of big integers takes. -/
def Fits (heap : Heap) (value : Value) : Prop := ∀ reason, fit heap value ≠ .refused reason

theorem Fits.cases (fits : Fits heap value) :
    (∃ whole, heap.look value = .int whole) ∨ (∃ whole, heap.look value = .bigInteger whole) ∨
      ∃ text, heap.look value = .text text := by
  unfold Fits fit at fits
  split at fits
  next whole shape => exact .inr (.inl ⟨whole, shape⟩)
  next whole shape => exact .inl ⟨whole, shape⟩
  next text shape => exact .inr (.inr ⟨text, shape⟩)
  next => exact absurd rfl (fits _)

theorem reads_of_settled (settled : fit heap value = .settled) :
    ∃ whole, Reads heap value whole ∧ heap.CountsAs value whole := by
  unfold fit at settled
  split at settled
  next whole shape => exact ⟨whole, .bigInteger shape, by rw [Heap.CountsAs, shape]; rfl⟩
  all_goals cases settled

theorem reads_of_parse (fits : fit heap value = .toParse)
    (parsed : parse heap path value = .ok (.ok stored)) :
    ∃ whole, Reads heap value whole ∧ stored = .bigInteger whole := by
  unfold fit at fits
  split at fits
  next => cases fits
  next whole shape =>
    simp only [parse, Heap.toInteger, shape, Except.map, Except.ok.injEq] at parsed
    exact ⟨whole, .int shape, parsed.symm⟩
  next text shape =>
    simp only [parse, Heap.toInteger, shape] at parsed
    split at parsed
    next numeral =>
      cases read : Heap.integerOfText text with
      | error fault => simp [read, Except.map] at parsed
      | ok whole =>
          simp only [read, Except.map, Except.ok.injEq] at parsed
          exact ⟨whole, .text shape numeral read, parsed.symm⟩
    next => simp at parsed
  next => cases fits

theorem not_reads_of_parse {fail : Failure} (fits : fit heap value = .toParse)
    (failed : parse heap path value = .ok (.error fail)) : ¬ Reads heap value whole := by
  have unread : ∀ {result : Except Fault Int},
      (result.map fun number => (.ok (.bigInteger number) : Outcome)) ≠ .ok (.error fail) := by
    intro result
    cases result <;> simp [Except.map]
  rintro (shape | shape | ⟨shape, numeral, _⟩)
  · simp only [parse, shape] at failed
    exact unread failed
  · simp [fit, shape] at fits
  · simp only [parse, shape, numeral, if_true] at failed
    exact unread failed

theorem same_ofInt_iff : (Quantity.ofInt whole).same (.ofInt number) = true ↔ whole = number := by
  refine Number.Dyadic.same_iff.trans ?_
  rw [Number.Dyadic.toRat_ofInt, Number.Dyadic.toRat_ofInt, Int.cast_inj]

/-- Of equal values that fit, one is an integer if the other is. -/
theorem Reads.of_equal (reads : Reads heap value whole) (fits : Fits heap other)
    (same : heap.equal other value = true) : Reads heap other whole := by
  obtain ⟨levels, opened⟩ := Heap.equal_eq heap other value
  rw [opened] at same
  split at same
  next shared =>
    rw [Value.eq_of_sameObject shared]
    exact reads
  next =>
    rcases reads with shape | shape | ⟨shape, numeral, read⟩ <;>
      obtain ⟨number, known⟩ | ⟨number, known⟩ | ⟨text, known⟩ := fits.cases <;>
      simp only [Heap.equalShapes, known, shape, Value.quantity?, Option.getD_some, same_ofInt_iff,
        beq_iff_eq, Bool.false_eq_true] at same
    all_goals subst same
    · exact .int known
    · exact .bigInteger known
    · exact .int known
    · exact .bigInteger known
    · exact .text known numeral read

theorem equal_of_counts (counts : heap.CountsAs value whole) :
    heap.equal other value = heap.equal other (.int whole) := by
  have integer : (heap.look (.int whole)).quantity? = some (.ofInt whole) := rfl
  rw [Heap.equal_comm_of_quantity counts Quantity.same_ofInt_self,
    Heap.equal_comm_of_quantity integer Quantity.same_ofInt_self,
    Heap.equal_of_quantity counts Quantity.same_ofInt_self,
    Heap.equal_of_quantity integer Quantity.same_ofInt_self]

theorem isAmong_of_counts {members : List Value} (counts : heap.CountsAs value whole) :
    heap.isAmong value members = heap.isAmong (.int whole) members := by
  simp only [Heap.isAmong, equal_of_counts counts]

/-- The big integers that are gathered for the values seen so far are no more than these, and every
integer that one of them was read as is among them. -/
structure Tallies (heap : Heap) (seen gathered : List Value) : Prop where
  fits : ∀ value ∈ seen, Fits heap value
  kept : ∀ value ∈ seen, ∀ whole, Reads heap value whole → heap.isAmong (.int whole) gathered = true
  fewer : gathered.length ≤ seen.length

namespace Tallies

variable {seen gathered next grown : List Value}

theorem empty : Tallies heap [] [] where
  fits := nofun
  kept := nofun
  fewer := Nat.le_refl _

/-- A value that is equal to one seen before brings no new integer. -/
theorem isAmong_of_seen (tallies : Tallies heap seen gathered) (reads : Reads heap value whole)
    (known : heap.isAmong value seen = true) : heap.isAmong (.int whole) gathered = true := by
  obtain ⟨other, member, same⟩ := List.any_eq_true.mp known
  exact tallies.kept other member whole (reads.of_equal (tallies.fits other member) same)

theorem insert (tallies : Tallies heap seen gathered) (fits : Fits heap value)
    (reads : Reads heap value whole) (counts : heap.CountsAs stored whole)
    (taken : heap.addMember seen value = .ok next)
    (added : heap.addMember gathered stored = .ok grown) : Tallies heap next grown := by
  obtain ⟨_, rfl⟩ := Heap.addMember_ok taken
  obtain ⟨_, rfl⟩ := Heap.addMember_ok added
  rw [isAmong_of_counts counts]
  by_cases known : heap.isAmong value seen = true
  · rw [if_pos known, if_pos (tallies.isAmong_of_seen reads known)]
    exact tallies
  · rw [if_neg known]
    have itself : heap.equal stored (.int whole) = true := by
      rw [← equal_of_counts counts, Heap.equal_of_quantity counts Quantity.same_ofInt_self, counts]
      exact Quantity.same_ofInt_self
    refine ⟨?_, ?_, ?_⟩
    · simp only [List.forall_mem_append, List.forall_mem_singleton]
      exact ⟨tallies.fits, fits⟩
    · simp only [List.forall_mem_append, List.forall_mem_singleton]
      refine ⟨fun other member number read => ?_, fun number read => ?_⟩
      · have among := tallies.kept other member number read
        split
        next => exact among
        next => exact Heap.isAmong_append among
      · obtain rfl := reads.unique read
        split
        next among => exact among
        next => simp [Heap.isAmong, itself]
    · have fewer := tallies.fewer
      split <;> simp only [List.length_append, List.length_singleton] <;> omega

/-- A value that is no integer is left out. -/
theorem skip (tallies : Tallies heap seen gathered) (fits : Fits heap value)
    (unread : ∀ whole, ¬ Reads heap value whole)
    (taken : heap.addMember seen value = .ok next) : Tallies heap next gathered := by
  obtain ⟨_, rfl⟩ := Heap.addMember_ok taken
  split
  next => exact tallies
  next =>
    refine ⟨?_, ?_, ?_⟩
    · simp only [List.forall_mem_append, List.forall_mem_singleton]
      exact ⟨tallies.fits, fits⟩
    · simp only [List.forall_mem_append, List.forall_mem_singleton]
      exact ⟨tallies.kept, fun number read => absurd read (unread number)⟩
    · have fewer := tallies.fewer
      simp only [List.length_append, List.length_singleton]
      omega

end Tallies

end BigInteger

namespace Validation

variable {parse : Parse} {world : World} {config : Configuration} {limit index dropped : Nat}
  {path : String} {sample value result : Value} {gathered values members : List Value}
  {before after : Trace}

/-- What is gathered of big integers is no more than the distinct ones among the values. -/
theorem length_le_of_bigIntegers {seen : List Value} (tallies : BigInteger.Tallies world.heap seen
      gathered)
    (taken : world.heap.distinct seen values = .ok members)
    (passes : Passes (parseTo world config limit) world.heap config Gathering.set.collection
      .bigInteger sample path index (Gathering.set.wrap gathered) values before (.ok result) dropped
      after) :
    ∃ stored, result = Gathering.set.wrap stored ∧ stored.length ≤ members.length := by
  induction values generalizing seen index gathered before dropped with
  | nil =>
      cases passes
      cases taken
      exact ⟨gathered, rfl, tallies.fewer⟩
  | cons value rest ih =>
      obtain ⟨next, added, taken⟩ := Heap.distinct_cons taken
      have fits {fit : Fit} {fitted : Trace}
          (compared : (ValueType.bigInteger.fit world.heap value sample).Yields before fit fitted) :
          BigInteger.fit world.heap value = fit := (Run.yields_pure.mp compared).1.symm
      cases passes with
      | settled compared inserted passes =>
          obtain ⟨whole, reads, counts⟩ := BigInteger.reads_of_settled (fits compared)
          obtain ⟨grown, stored, rfl, rfl⟩ := Gathering.insert_yields.mp inserted
          have fit : BigInteger.Fits world.heap value := by simp [BigInteger.Fits, fits compared]
          exact ih (tallies.insert fit reads counts added stored) taken passes
      | parsed compared parsed inserted passes =>
          rw [parseTo_bigInteger_eq, Run.yields_lift] at parsed
          obtain ⟨whole, reads, rfl⟩ := BigInteger.reads_of_parse (fits compared) parsed.1
          obtain ⟨grown, stored, rfl, rfl⟩ := Gathering.insert_yields.mp inserted
          have fit : BigInteger.Fits world.heap value := by simp [BigInteger.Fits, fits compared]
          have counts : world.heap.CountsAs (.bigInteger whole) whole := rfl
          exact ih (tallies.insert fit reads counts added stored) taken passes
      | skipped compared parsed _ _ passes =>
          rw [parseTo_bigInteger_eq, Run.yields_lift] at parsed
          have fit : BigInteger.Fits world.heap value := by simp [BigInteger.Fits, fits compared]
          exact ih (tallies.skip fit
            (fun _ => BigInteger.not_reads_of_parse (fits compared) parsed.1) added) taken passes

/-- Values with hashes are no objects to be parsed, so a set of records takes them in as they are. -/
theorem eq_of_records (taken : world.heap.distinct gathered values = .ok members)
    (passes : Passes parse world.heap config Gathering.set.collection .record sample path index
      (Gathering.set.wrap gathered) values before (.ok result) dropped after) :
    result = Gathering.set.wrap members := by
  induction values generalizing index gathered before dropped with
  | nil =>
      cases passes
      cases taken
      rfl
  | cons value rest ih =>
      obtain ⟨next, added, taken⟩ := Heap.distinct_cons taken
      obtain ⟨⟨hash, hashed⟩, _⟩ := Heap.addMember_ok added
      have held {fitted : Trace}
          (compared : (ValueType.record.fit world.heap value sample).Yields before .toParse
            fitted) : False := by
        obtain ⟨entries, shape⟩ := mapping_of_record_toParse compared
        cases (Heap.hash_of_mapping shape).symm.trans hashed
      cases passes with
      | settled _ inserted passes =>
          obtain ⟨grown, stored, rfl, rfl⟩ := Gathering.insert_yields.mp inserted
          cases added.symm.trans stored
          exact ih taken passes
      | parsed compared _ _ _ | skipped compared _ _ _ _ => exact (held compared).elim

section Gathering

variable {type : ValueType} {kind : Gathering} {element : Option ValueType}

/-- What is parsed by the type of a collection is that collection. -/
theorem wrapped_of_collects (collects : Collects parse world config kind.collection element path
    sample value before (.ok result) dropped after) : ∃ members, result = kind.wrap members := by
  cases collects with
  | unchecked emptied _ _ inserted =>
      obtain ⟨rfl, rfl⟩ := Gathering.empty_yields.mp emptied
      obtain ⟨grown, _, same, _⟩ := Gathering.gather_of_insertAll inserted
      exact ⟨grown, Except.ok.inj same⟩
  | passed emptied _ _ _ passes =>
      obtain ⟨rfl, rfl⟩ := Gathering.empty_yields.mp emptied
      obtain ⟨members, rfl, _⟩ := counts_of_passes passes
      exact ⟨members, rfl⟩

/-- Collections have no hashes, so a set of them keeps none. -/
theorem eq_of_collections (gathers : OfCollection type kind.collection element)
    (passes : Passes (parseTo world config limit) world.heap config Gathering.set.collection type
      sample path index (Gathering.set.wrap gathered) values before (.ok result) dropped after) :
    result = Gathering.set.wrap gathered := by
  induction values generalizing index before dropped with
  | nil =>
      cases passes
      rfl
  | cons value rest ih =>
      cases passes with
      | settled compared _ _ => exact absurd compared (not_settled_of_collection gathers)
      | parsed _ parsed inserted _ =>
          obtain ⟨_, _, _, collects⟩ := collects_of_parseTo gathers parsed
          obtain ⟨inner, rfl⟩ := wrapped_of_collects collects
          obtain ⟨grown, added, _⟩ := Gathering.insert_yields.mp inserted
          obtain ⟨⟨hash, hashed⟩, _⟩ := Heap.addMember_ok added
          exact absurd Gathering.look_wrap ((Heap.hash_of_parts hashed).2 kind inner)
      | skipped _ _ _ _ passes => exact ih passes

end Gathering

/-- Where all elements have hashes, a set is not larger than the distinct ones among them. -/
theorem length_le_of_distinct {type : ValueType} (built : type.BuiltOf Collection.IsGathering)
    (taken : world.heap.distinct [] values = .ok members)
    (passes : Passes (parseTo world config limit) world.heap config Gathering.set.collection type
      sample path index (Gathering.set.wrap []) values before (.ok result) dropped after) :
    ∃ stored, result = Gathering.set.wrap stored ∧ stored.length ≤ members.length := by
  cases built with
  | primitive =>
      obtain ⟨grown, gathered, rfl, _⟩ := gather_of_plain [] passes
      rw [Gathering.gather_set] at gathered
      cases taken.symm.trans gathered
      exact ⟨_, rfl, by rw [List.length_map]⟩
  | record => exact ⟨members, eq_of_records taken passes, Nat.le_refl _⟩
  | bigInteger => exact length_le_of_bigIntegers .empty taken passes
  | unbound own =>
      obtain ⟨kind, rfl⟩ := own
      exact ⟨[], eq_of_collections .unbound passes, Nat.zero_le _⟩
  | bound own _ =>
      obtain ⟨kind, rfl⟩ := own
      exact ⟨[], eq_of_collections .bound passes, Nat.zero_le _⟩

/-- No element is put in more than once. -/
theorem length_le_of_passes {type : ValueType} {kind : Gathering}
    (passes : Passes parse world.heap config kind.collection type sample path index
      (kind.wrap gathered) values before (.ok result) dropped after) :
    ∃ stored, result = kind.wrap stored ∧
      stored.length + dropped ≤ gathered.length + values.length := by
  induction values generalizing index gathered before dropped with
  | nil =>
      cases passes
      exact ⟨gathered, rfl, Nat.le_refl _⟩
  | cons value rest ih =>
      cases passes with
      | settled _ inserted passes | parsed _ _ inserted passes =>
          obtain ⟨grown, added, rfl, rfl⟩ := Gathering.insert_yields.mp inserted
          obtain ⟨stored, rfl, fewer⟩ := ih passes
          have one := Gathering.length_add_le added
          refine ⟨stored, rfl, ?_⟩
          simp only [List.length_cons]
          omega
      | skipped _ _ _ _ passes =>
          obtain ⟨stored, rfl, fewer⟩ := ih passes
          refine ⟨stored, rfl, ?_⟩
          simp only [List.length_cons]
          omega

end Validation

namespace Catalogue

open Validation

variable {catalogue : Catalogue} {type : ValueType}

/-- The types that are registered from the start, and that of big integers. -/
theorem builtOf_of_mem (types : ∀ type ∈ catalogue, type ∈ .bigInteger :: builtIn) :
    ∀ type ∈ catalogue, type.BuiltOf Collection.IsGathering := by
  intro type member
  have known := types type member
  simp only [builtIn, List.mem_cons, List.not_mem_nil, or_false] at known
  rcases known with rfl | rfl | rfl | rfl | rfl
  · exact .bigInteger
  · exact .unbound ⟨.set, rfl⟩
  · exact .unbound ⟨.array, rfl⟩
  · exact .record
  · exact .primitive

theorem unbound_of_mem {collection : Collection} {element : Option ValueType}
    (types : ∀ type ∈ catalogue, type ∈ .bigInteger :: builtIn) (member : type ∈ catalogue)
    (gathers : OfCollection type collection element) :
    type = .unbound collection ∧ element = none := by
  have known := types type member
  simp only [builtIn, List.mem_cons, List.not_mem_nil, or_false] at known
  rcases known with rfl | rfl | rfl | rfl | rfl <;> cases gathers <;> exact ⟨rfl, rfl⟩

end Catalogue

theorem Gathering.shape_of_recognizes {kind : Gathering} {heap : Heap} {sample : Value}
    {before after : Trace}
    (recognized : (kind.collection.recognizes heap sample).Yields before true after) :
    ∃ samples, heap.gathering? sample = some (kind, samples) := by
  cases kind with
  | array =>
      have list : Collection.isList (heap.look sample) = true :=
        (Run.yields_pure.mp recognized).1.symm
      cases shape : heap.look sample <;> simp_all [Collection.isList, Heap.gathering?]
  | set =>
      have set : Collection.isAnySet (heap.look sample) = true :=
        (Run.yields_pure.mp recognized).1.symm
      cases shape : heap.look sample <;> simp_all [Collection.isAnySet, Heap.gathering?]

/-- A field of arrays or of sets has a sample of that kind. Its type is bound to that of elements,
unless the sample has none. -/
theorem Field.CompiledBy.gathering {catalogue : Catalogue} {earlier : Heap} {field : Field}
    {kind : Gathering} {element : Option ValueType} (compiled : field.CompiledBy catalogue earlier)
    (types : ∀ type ∈ catalogue, type ∈ .bigInteger :: Catalogue.builtIn)
    (gathers : Validation.OfCollection field.type kind.collection element) :
    ∃ samples, earlier.gathering? field.sample = some (kind, samples) ∧
      (element = none → samples = []) ∧
      ∀ inner, element = some inner → inner.BuiltOf Collection.IsGathering := by
  obtain ⟨_, _, ran⟩ := compiled.typeFor
  obtain ⟨found, _, resolved, bound⟩ := Run.yields_bind.mp ran
  obtain ⟨member, _, _, suits⟩ := Catalogue.suits_of_resolve resolved
  have binds := Catalogue.binds_of_bindTo bound
  generalize field.type = type at gathers binds
  cases binds with
  | plain other => exact absurd gathers (other _ _)
  | bare own first =>
      obtain ⟨rfl, rfl⟩ := Catalogue.unbound_of_mem types member gathers
      obtain ⟨samples, shape⟩ := Gathering.shape_of_recognizes suits
      cases own
      have bare := ((Heap.first_yields shape).mp first).1
      exact ⟨samples, shape, fun _ => List.head?_eq_none_iff.mp bare.symm, nofun⟩
  | element own first known inner =>
      obtain ⟨rfl, rfl⟩ := Catalogue.unbound_of_mem types member own
      cases gathers
      obtain ⟨samples, shape⟩ := Gathering.shape_of_recognizes suits
      refine ⟨samples, shape, nofun, ?_⟩
      rintro _ ⟨⟩
      exact inner.builtOf (Catalogue.builtOf_of_mem types) (Catalogue.builtOf_of_mem types _ known)

namespace Heap

variable {heap : Heap} {sample limit : Value} {kind : Gathering} {samples : List Value}
  {count fewer : Nat}

theorem gathering_congr {earlier : Heap} (kept : heap.look sample = earlier.look sample) :
    heap.gathering? sample = earlier.gathering? sample := by
  rw [gathering?, gathering?, kept]

/-- What is not above a limit is not above it with fewer elements. -/
theorem order_above_of_le (below : heap.order .above (.int count) limit = .ok false)
    (le : fewer ≤ count) : heap.order .above (.int fewer) limit = .ok false := by
  have number (size : Nat) : (heap.look (.int size)).quantity? = some (.ofInt size) := rfl
  obtain ⟨quantity, held, answer⟩ := (order_of_quantity (number count)).mp below
  refine (order_of_quantity (number fewer)).mpr ⟨quantity, held, ?_⟩
  rcases quantity with _ | _ | place | _
  · rfl
  · cases answer
  · simp only [Side.ask, Quantity.less, Quantity.ofInt, Number.Binary64.Point.less] at answer ⊢
    rw [eq_comm, Bool.eq_false_iff, ne_eq, Number.Dyadic.less_iff,
      Number.Dyadic.toRat_ofInt] at answer ⊢
    have larger : ((fewer : Int) : ℚ) ≤ ((count : Int) : ℚ) := by exact_mod_cast le
    exact fun less => answer (less.trans_le larger)
  · rfl

end Heap

namespace Validation

section Sizing

variable {world : World} {config : Configuration} {kind : Gathering} {element : Option ValueType}
  {limit dropped : Nat} {path : String} {sample value result : Value} {samples values : List Value}
  {before after : Trace}

/-- A collection that is made of elements of the library's types has no more elements than were
counted, and an array has all that were not left out. -/
theorem sized_of_collects (accepted : kind.collection.accepts (world.heap.look value) = true)
    (shape : world.heap.gathering? sample = some (kind, samples))
    (bare : element = none → samples = [])
    (built : ∀ inner, element = some inner → inner.BuiltOf Collection.IsGathering)
    (collects : Collects (parseTo world config limit) world config kind.collection element path
      sample value before (.ok result) dropped after) :
    ∃ values members, world.heap.iterate value = .ok values ∧ result = kind.wrap members ∧
      (kind = .array → members.length + dropped = values.length) ∧
      ∀ first count last, (kind.collection.size world.heap value).Yields first count last →
        members.length ≤ count := by
  cases collects with
  | @unchecked _ _ _ values _ _ emptied _ listed inserted =>
      obtain ⟨rfl, rfl⟩ := Gathering.empty_yields.mp emptied
      obtain ⟨grown, gathered, same, _⟩ := Gathering.gather_of_insertAll inserted
      refine ⟨values, grown, listed, Except.ok.inj same, fun array => ?_, fun _ _ _ sized => ?_⟩
      · subst array
        cases Gathering.gather_array.symm.trans gathered
        rfl
      · exact Nat.le_of_eq (Gathering.size_of_gather accepted listed gathered sized).symm
  | @passed _ _ _ _ type _ values _ _ _ emptied looked bound listed passes =>
      obtain ⟨rfl, rfl⟩ := Gathering.empty_yields.mp emptied
      cases element with
      | none =>
          simp [Heap.first_yields shape, bare rfl] at looked
      | some inner =>
          obtain ⟨rfl, rfl⟩ := Run.yields_pure.mp bound
          cases kind with
          | array =>
              obtain ⟨members, rfl, counted⟩ := counts_of_passes passes
              have placed : members.length + dropped = values.length := by simpa using counted rfl
              refine ⟨values, members, listed, rfl, fun _ => placed, fun _ _ _ sized => ?_⟩
              rw [Gathering.size_of_gather accepted listed Gathering.gather_array sized,
                List.nil_append]
              omega
          | set =>
              obtain ⟨members, rfl, fewer⟩ := length_le_of_passes passes
              refine ⟨values, members, listed, rfl, nofun, fun _ _ _ sized => ?_⟩
              rcases Gathering.size_yields accepted listed sized with
                ⟨distinct, gathered, rfl⟩ | ⟨_, rfl⟩
              · rw [Gathering.gather_set] at gathered
                obtain ⟨stored, same, le⟩ := length_le_of_distinct (built _ rfl) gathered passes
                cases same
                exact le
              · simp only [List.length_nil] at fewer
                omega

/-- The size of an array is known, and that of a set unless some hash is out of reach. -/
theorem size_exists (accepted : kind.collection.accepts (world.heap.look value) = true)
    (listed : world.heap.iterate value = .ok values)
    (hashable : kind = .set → ∀ element ∈ values, world.heap.hash? element ≠ .error .tooDeep)
    (trace : Trace) :
    ∃ count last, (kind.collection.size world.heap value).Yields trace count last := by
  cases kind with
  | array =>
      have places := Gathering.length_of_iterate accepted listed
      have measured : (Measure.length world.heap value).Yields trace values.length trace := by
        simp [Measure.length, places]
      exact ⟨values.length, trace, measured⟩
  | set =>
      obtain ⟨count, last, sized, _⟩ := Heap.size_always accepted listed (hashable rfl) trace
      exact ⟨count, last, sized⟩

end Sizing

/-- The value is parsed to a collection with no more elements than it was measured to have, and its
measure is known unless some hash is out of reach. An array has as many elements as the value, less
those that are left out of it. -/
structure ParsesWithin (world : World) (config : Configuration) (limit : Nat) (type : ValueType)
    (kind : Gathering) (element : Option ValueType) (path : String) (sample value : Value)
    (before : Trace) (values members : List Value) (dropped : Nat) (after : Trace) : Prop where
  listed : world.heap.iterate value = .ok values
  collects : Collects (parseTo world config limit) world config kind.collection element path sample
    value before (.ok (kind.wrap members)) dropped after
  counted : kind = .array → members.length + dropped = values.length
  within : ∀ trace count last, (type.measure.size world.heap value).Yields trace count last →
    members.length ≤ count
  measured : (kind = .set → ∀ element ∈ values, world.heap.hash? element ≠ .error .tooDeep) →
    ∀ trace, ∃ count last, (type.measure.size world.heap value).Yields trace count last

variable {world : World} {config : Configuration} {catalogue : Catalogue} {earlier : Heap}
  {visit : Visit} {field : Field} {kind : Gathering} {element : Option ValueType}

theorem parsesWithin_of_parseTo {limit : Nat} {path : String} {value parsed : Value}
    {first fitted before after : Trace} (compiled : field.CompiledBy catalogue earlier)
    (types : ∀ type ∈ catalogue, type ∈ .bigInteger :: Catalogue.builtIn)
    (gathers : OfCollection field.type kind.collection element)
    (kept : world.heap.look field.sample = earlier.look field.sample)
    (fit : (field.type.fit world.heap value field.sample).Yields first .toParse fitted)
    (ran : (parseTo world config limit field.type path field.sample value).Yields before
      (.ok parsed) after) :
    ∃ below values members dropped, limit = below + 1 ∧ parsed = kind.wrap members ∧
      ParsesWithin world config below field.type kind element path field.sample value before values
        members dropped after := by
  obtain ⟨samples, shape, bare, built⟩ := compiled.gathering types gathers
  obtain ⟨below, dropped, deep, collects⟩ := collects_of_parseTo gathers ran
  have measure : field.type.measure.size = kind.collection.size := by
    generalize field.type = type at gathers
    cases gathers <;> rfl
  have accepted : kind.collection.accepts (world.heap.look value) = true := by
    generalize field.type = type at gathers fit
    cases gathers <;> exact Collection.fit_eq_toParse.mp (Run.yields_pure.mp fit).1.symm
  obtain ⟨values, members, listed, rfl, counted, within⟩ :=
    sized_of_collects accepted ((Heap.gathering_congr kept).trans shape) bare built collects
  refine ⟨below, values, members, dropped, deep, rfl, listed, collects, counted, ?_, ?_⟩
  · rw [measure]
    exact within
  · rw [measure]
    exact size_exists accepted listed

/-- What the input of a list or set was measured to be is never exceeded by what it is parsed to, with
any elements, nested in any way, and under either policy. An array has as many elements as its input,
less those that are left out of it. So nothing is stored that is larger than the declared maximum. -/
theorem size_bounds_parsed (compiled : visit.field.CompiledBy catalogue earlier)
    (types : ∀ type ∈ catalogue, type ∈ .bigInteger :: Catalogue.builtIn)
    (gathers : OfCollection visit.field.type kind.collection element)
    (kept : world.heap.look visit.field.sample = earlier.look visit.field.sample) :
    (∀ limit path value first fitted before parsed after,
      (visit.field.type.fit world.heap value visit.field.sample).Yields first .toParse fitted →
      (parseTo world config limit visit.field.type path visit.field.sample value).Yields before
        (.ok parsed) after →
      ∃ below values members dropped, limit = below + 1 ∧ parsed = kind.wrap members ∧
        ParsesWithin world config below visit.field.type kind element path visit.field.sample value
          before values members dropped after) ∧
    ∀ most stored after, visit.field.declaration.maximum = some most →
      (visit.guarded world config).Yields visit.before (.stored stored) after →
        ∃ members, stored = kind.wrap members ∧
          world.heap.order .above (.int members.length) most = .ok false := by
  refine ⟨fun _ _ _ _ _ _ _ _ => parsesWithin_of_parseTo compiled types gathers kept,
    fun most stored after declared ran => ?_⟩
  cases settles_of_guardField ran (by simp) with
  | unsought sought => cases sought
  | settled admitted =>
      obtain ⟨_, compared, _⟩ := admitted
      exact absurd compared (not_settled_of_collection gathers)
  | parsed admitted parsed =>
      obtain ⟨_, compared, passed⟩ := admitted
      obtain ⟨_, _, members, _, _, rfl, parses⟩ :=
        parsesWithin_of_parseTo compiled types gathers kept compared parsed
      obtain ⟨samples, shape, _⟩ := compiled.gathering types gathers
      obtain ⟨count, first, last, measured, below⟩ :=
        compiled.order_of_pass .above (Heap.hasSize_of_gathering shape) declared passed
      exact ⟨members, rfl, Heap.order_above_of_le below (parses.within first count last measured)⟩

end Validation

/-! Ledgers with at most two amounts, no two of them the same. -/

namespace Ledgers

def ledgerClass : RecordClass := ⟨1, "Ledger", [1, 0]⟩

def amounts : Field :=
  ⟨"amounts", { sample := .ref 1, maximum := some (.int 2) }, .ref 1, .bound .set .bigInteger,
    [.bySize .above "size" (.int 2) Collection.set.size]⟩

def schema : Schema where
  recordClass := ledgerClass
  body := [("amounts", amounts.declaration)]
  declarations := [("amounts", amounts.declaration)]
  ancestry := [1, 0]
  config := none
  compiled := some (.of [amounts] 0 (.ref 0))

def world : World where
  heap := ⟨#[.record ledgerClass [("amounts", .ref 1)], .set [.bigInteger 0]]⟩
  schemas := #[.root, schema]
  configs := #[{ catalogue := 0 }]
  catalogues := #[Balances.types]
  default := 0

/-- One amount in three forms, two of which are equal as they come in. -/
def thrice : Value := .list [.int 1, .bigInteger 1, .text "1"]

def visit : Validation.Visit := ⟨2, "", [(.text "amounts", thrice)], amounts, []⟩

end Ledgers

theorem size_bounds_parsed_ledgers :
    (∃ values members dropped, Validation.ParsesWithin Ledgers.world (Ledgers.world.config 0) 1
      Ledgers.amounts.type .set (some .bigInteger) "amounts" (.ref 1) Ledgers.thrice [] values members
      dropped [] ∧ Gathering.set.wrap members = .set [.bigInteger 1]) ∧
    (Ledgers.visit.guarded Ledgers.world (Ledgers.world.config 0)).Yields []
      (.stored (.set [.bigInteger 1])) [] ∧
    ∃ members, (.set [.bigInteger 1] : Value) = Gathering.set.wrap members ∧
      Ledgers.world.heap.order .above (.int members.length) (.int 2) = .ok false := by
  have stored : (Ledgers.visit.guarded Ledgers.world (Ledgers.world.config 0)).Yields []
      (.stored (.set [.bigInteger 1])) [] := rfl
  obtain ⟨parses, bounded⟩ := @Validation.size_bounds_parsed Ledgers.world (Ledgers.world.config 0)
    Balances.types Ledgers.world.heap Ledgers.visit .set (some .bigInteger) ⟨[], [], rfl⟩
    (fun _ member => Balances.withBigIntegers.only _ member) .bound rfl
  refine ⟨?_, stored, bounded (.int 2) _ [] rfl stored⟩
  obtain ⟨below, values, members, dropped, deep, same, within⟩ :=
    parses 2 "amounts" Ledgers.thrice [] [] [] (.set [.bigInteger 1]) [] rfl rfl
  cases deep
  exact ⟨values, members, dropped, within, same.symm⟩

end Exemplar
