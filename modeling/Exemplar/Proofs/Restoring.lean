import Exemplar.Proofs.Rechecks

/-!
Values restored from their plain forms. What the built-in types store has a plain form that is
again what a document can hold; it fits the same sample, is the same to its checks, and is parsed
to a value like the one that was stored. The three are followed side by side through collections.
-/

namespace Exemplar

/-- What is stored for a value, the plain form of that, and what the plain form is parsed to, with
such events only. -/
structure Restores (events : Event → Prop) (world : World) (config : Configuration)
    (type : ValueType) (sample value stored plain again : Value) : Prop where
  finite : world.heap.Finite stored
  made : world.heap.HasPlain stored plain
  json : world.heap.Json plain
  present : plain ≠ .null
  fits (trace : Trace) : (type.fit world.heap plain sample).Yields trace .toParse trace
  parses (limit : Nat) (path : String) : world.heap.Within limit plain →
    (Validation.parseTo world config limit type path sample plain).Gives events (.ok again)
  alike : world.heap.Alike stored again
  same : SameToChecks world.heap type sample value plain

/-- What a run on a document can have to parse: what documents hold, and the empty set that stands
in for a missing one. -/
def Heap.Offered (heap : Heap) (value : Value) : Prop := heap.Json value ∨ value = .set []

namespace Primitive

variable {heap : Heap} {sample value : Value}

theorem parse_of_not_int (fraction : ∀ whole, heap.look sample ≠ .int whole) :
    parse heap sample value = value := by
  unfold parse
  split
  next whole _ shape _ => exact absurd shape (fraction whole)
  next => rfl

theorem isScalar_parse (heap : Heap) (sample : Value) (single : value.isScalar = true) :
    (parse heap sample value).isScalar = true := by
  unfold parse
  repeat' split
  all_goals first | rfl | exact single

theorem parse_ne_null (present : value ≠ .null) : parse heap sample value ≠ .null := by
  rcases parse_cases heap sample value with same | ⟨place, whole, stored, _, _⟩
  · rw [same]
    exact present
  · simp [stored]

theorem shapeName_parse : heap.shapeName (parse heap sample value) = heap.shapeName value := by
  unfold parse
  split
  next whole number shape given =>
    split
    next =>
      rw [Heap.shapeName, Heap.shapeName, given]
      rfl
    next => rfl
  next => rfl

end Primitive

namespace Heap

variable {heap : Heap} {type : ValueType} {sample value : Value} {before after : Trace}

theorem length_yields {count : Nat} :
    (Measure.length heap value).Yields before count after ↔
      heap.length? value = some count ∧ after = before := by
  unfold Measure.length
  cases heap.length? value with
  | none => simp
  | some length => simp [eq_comm]

theorem Json.isRecord (json : heap.Json value) : heap.isRecord value = false := by
  unfold Heap.isRecord
  cases json with
  | scalar single =>
      rw [look_of_isScalar single]
      cases value <;> first | rfl | cases single
  | list shape _ => rw [shape]
  | object shape _ _ => rw [shape, Value.object]

theorem Offered.isRecord (offered : heap.Offered value) : heap.isRecord value = false := by
  rcases offered with json | rfl
  · exact json.isRecord
  · rfl

/-- What goes for a scalar by its shape is one. -/
theorem Offered.isScalar (offered : heap.Offered value) (single : sample.isScalar = true)
    (present : sample ≠ .null) (same : heap.shapeName sample = heap.shapeName value) :
    value.isScalar = true ∧ value ≠ .null := by
  have known : heap.shapeName value ∈ ["boolean", "number", "string"] := by
    rw [← same, shapeName, look_of_isScalar single]
    cases sample <;> simp_all [Value.isScalar, Value.shapeName]
  rcases offered with json | rfl
  · cases json with
    | scalar one =>
        refine ⟨one, ?_⟩
        rintro rfl
        simp [shapeName, look, Value.shapeName] at known
    | list shape _ =>
        rw [shapeName, shape] at known
        simp [Value.shapeName] at known
    | object shape _ _ =>
        rw [shapeName, shape] at known
        simp [Value.shapeName, Value.object] at known
  · simp [shapeName, look, Value.shapeName, Value.className] at known

theorem not_accepts_of_isScalar {kind : Gathering} (single : value.isScalar = true) :
    kind.collection.accepts value = false := by
  cases kind <;> cases value <;> first | rfl | cases single

theorem Offered.elements {kind : Gathering} {values : List Value} (offered : heap.Offered value)
    (accepted : kind.collection.accepts (heap.look value) = true)
    (listed : heap.iterate value = .ok values) : ∀ element ∈ values, heap.Json element := by
  rcases offered with json | rfl
  · cases json with
    | scalar single =>
        rw [look_of_isScalar single, not_accepts_of_isScalar single] at accepted
        cases accepted
    | list shape all =>
        intro element member
        have part := mem_parts_of_iterate accepted listed member
        rw [shape] at part
        exact all element part
    | object shape _ _ =>
        rw [shape] at accepted
        cases kind <;> cases accepted
  · cases listed
    simp

end Heap

section Singles

variable {events : Event → Prop} {world : World} {config : Configuration} {type : ValueType}
  {sample value : Value}

theorem type_of_isPlain (plain : IsPlain world sample) (typed : world.heap.Typed sample type) :
    type = .primitive .fallback :=
  typed.unique (.plain plain.1 plain.2)

theorem fits_of_shapeName {plain : Value} (trace : Trace)
    (same : world.heap.shapeName sample = world.heap.shapeName plain) :
    (ValueType.fit (.primitive .fallback) world.heap plain sample).Yields trace .toParse trace := by
  simp [ValueType.fit, Primitive.fit, same]

theorem parses_of_parse {plain again : Value} (limit : Nat) (path : String)
    (made : Primitive.parse world.heap sample plain = again) :
    (Validation.parseTo world config limit (.primitive .fallback) path sample plain).Gives events
      (.ok again) :=
  Run.gives_of_yields fun trace => by simp [Validation.parseTo_primitive, made]

theorem restores_scalar (single : sample.isScalar = true) (present : sample ≠ .null)
    (typed : world.heap.Typed sample type) (offered : world.heap.Offered value)
    (same : world.heap.shapeName sample = world.heap.shapeName value) :
    Restores events world config type sample value (Primitive.parse world.heap sample value)
      (Primitive.parse world.heap sample value) (Primitive.parse world.heap sample value) := by
  have plain : IsPlain world sample :=
    ⟨Heap.gathering_of_isScalar single, (Heap.Json.scalar single).isRecord⟩
  obtain ⟨one, bare⟩ := offered.isScalar single present same
  have stored := Primitive.isScalar_parse world.heap sample one
  have shape : world.heap.shapeName sample =
      world.heap.shapeName (Primitive.parse world.heap sample value) := by
    rw [same, Primitive.shapeName_parse]
  cases type_of_isPlain plain typed
  exact {
    finite := Heap.finite_of_isScalar stored
    made := .scalar stored
    json := .scalar stored
    present := Primitive.parse_ne_null bare
    fits := fun trace => fits_of_shapeName trace shape
    parses := fun limit path _ => parses_of_parse limit path Primitive.parse_parse
    alike := .scalar stored
    same := {
      scalar := fun _ => rfl
      sized := by
        intro before count after trace sized measured
        have text : ∀ whole, world.heap.look sample ≠ .int whole := by
          intro whole shape
          simp [Heap.hasSize, Heap.length?, shape] at sized
        obtain ⟨length, _⟩ := Heap.length_yields.mp measured
        rw [Primitive.parse_of_not_int text]
        exact Heap.length_yields.mpr ⟨length, rfl⟩ } }

theorem restores_object {entries : List (Value × Value)}
    (shape : world.heap.look sample = .mapping entries) (typed : world.heap.Typed sample type)
    (offered : world.heap.Offered value)
    (same : world.heap.shapeName sample = world.heap.shapeName value) :
    ∃ plain, Restores events world config type sample value value plain plain := by
  have plain : IsPlain world sample := by simp [IsPlain, Heap.gathering?, Heap.isRecord, shape]
  have kept (other : Value) : Primitive.parse world.heap sample other = other :=
    Primitive.parse_of_not_int (by simp [shape])
  have object : world.heap.shapeName value = "object" := by
    rw [← same, Heap.shapeName, shape]
    rfl
  cases type_of_isPlain plain typed
  rcases offered with json | rfl
  · obtain ⟨plain, rendered⟩ := json.rendered
    refine ⟨plain, {
      finite := json.finite
      made := rendered.made
      json := rendered.json
      present := ?_
      fits := fun trace => fits_of_shapeName trace (same.trans rendered.shape.symm)
      parses := fun limit path _ => parses_of_parse limit path (kept plain)
      alike := rendered.alike
      same := ⟨?_, ?_⟩ }⟩
    · rintro rfl
      have other := rendered.shape.trans object
      simp [Heap.shapeName, Heap.look, Value.shapeName] at other
    · intro single
      rw [Heap.look_of_isScalar single] at shape
      subst shape
      cases single
    · intro before count after trace _ measured
      obtain ⟨length, _⟩ := Heap.length_yields.mp measured
      exact Heap.length_yields.mpr ⟨rendered.length.trans length, rfl⟩
  · simp [Heap.shapeName, Heap.look, Value.shapeName, Value.className] at object

end Singles

namespace Gathering

variable {kind : Gathering} {heap : Heap} {values grown : List Value} {before after : Trace}

theorem size_list_yields (trace : Trace) (gathered : kind.gather heap [] values = .ok grown) :
    (kind.collection.size heap (.list values)).Yields trace grown.length trace := by
  cases kind with
  | array =>
      rw [gather_array, Except.ok.injEq] at gathered
      subst gathered
      have length : heap.length? (.list values) = some values.length := rfl
      exact Heap.length_yields.mpr ⟨length, rfl⟩
  | set =>
      rw [gather_set] at gathered
      simp [Collection.size, collection, Collection.set, Heap.elements?, Heap.look, gathered]

theorem insertAll_yields (trace : Trace) {elements : List Value}
    (gathered : kind.gather heap elements values = .ok grown) :
    (Validation.insertAll heap kind.collection (kind.wrap elements) values).Yields trace
      (.ok (kind.wrap grown)) trace := by
  induction values generalizing elements with
  | nil =>
      cases gathered
      exact Run.yields_pure.mpr ⟨rfl, rfl⟩
  | cons value rest ih =>
      simp only [gather] at gathered
      split at gathered
      next => cases gathered
      next next added =>
        have inserted : (kind.collection.insert heap (kind.wrap elements) value).Yields trace
            (kind.wrap next) trace := insert_yields.mpr ⟨next, added, rfl, rfl⟩
        exact inserted.bind.trans (ih gathered)

theorem gather_parse {sample : Value} (elements values : List Value) :
    kind.gather heap (elements.map (Primitive.parse heap sample))
        (values.map (Primitive.parse heap sample)) =
      (kind.gather heap elements values).map (·.map (Primitive.parse heap sample)) := by
  induction values generalizing elements with
  | nil => rfl
  | cons value rest ih =>
      simp only [List.map_cons, gather, add_parse]
      cases kind.add heap elements value with
      | error fault => rfl
      | ok next => exact ih next

theorem mem_of_gather {elements : List Value} {member : Value}
    (gathered : kind.gather heap elements values = .ok grown) (present : member ∈ grown) :
    member ∈ elements ∨ member ∈ values := by
  induction values generalizing elements with
  | nil =>
      cases gathered
      exact .inl present
  | cons value rest ih =>
      simp only [gather] at gathered
      split at gathered
      next => cases gathered
      next next added =>
        rcases ih gathered with early | late
        · rcases mem_of_add added early with old | rfl
          · exact .inl old
          · exact .inr (by simp)
        · exact .inr (List.mem_cons_of_mem value late)

end Gathering

/-- The members that a set has taken in are taken in again, all of them and in their order. -/
theorem Heap.distinct_again {heap : Heap} {members values grown : List Value}
    (taken : heap.distinct members values = .ok grown) :
    ∃ fresh, grown = members ++ fresh ∧ heap.distinct members fresh = .ok grown := by
  induction values generalizing members with
  | nil =>
      cases taken
      exact ⟨[], by simp, rfl⟩
  | cons value rest ih =>
      simp only [distinct] at taken
      split at taken
      next => cases taken
      next next added =>
        obtain ⟨fresh, rfl, again⟩ := ih taken
        have either : next = members ∨ next = members ++ [value] := by
          unfold addMember at added
          split at added
          next => cases added
          next =>
            cases added
            split <;> simp
        rcases either with rfl | rfl
        · exact ⟨fresh, rfl, again⟩
        · exact ⟨value :: fresh, by simp, by simpa only [distinct, added] using again⟩

/-- What is stored for the members of a set makes the same set. -/
theorem Gathering.set_again {heap : Heap} {sample : Value} {values grown : List Value}
    (gathered : Gathering.set.gather heap [] values = .ok grown) :
    Gathering.set.gather heap [] (grown.map (Primitive.parse heap sample)) =
      .ok (grown.map (Primitive.parse heap sample)) := by
  rw [gather_set] at gathered
  obtain ⟨fresh, same, taken⟩ := Heap.distinct_again gathered
  rw [List.nil_append] at same
  subst same
  have parsed : Gathering.set.gather heap [] (grown.map (Primitive.parse heap sample)) =
      (Gathering.set.gather heap [] grown).map (·.map (Primitive.parse heap sample)) :=
    gather_parse [] grown
  rw [parsed, gather_set, taken]
  rfl

section Runs

variable {events : Event → Prop} {parse : Parse} {world : World} {config : Configuration}
  {kind : Gathering} {type : ValueType} {sample : Value} {path : String}
  {plains agains grown : List Value}

open Validation

theorem parseCollection_unchecked {element : Option ValueType}
    (shape : world.heap.gathering? sample = some (kind, []))
    (gathered : kind.gather world.heap [] plains = .ok grown) :
    (parseCollection parse world config kind.collection element path sample (.list plains)).Gives
      events (.ok (kind.wrap grown)) := by
  refine Run.gives_of_yields fun trace => ?_
  have emptied : kind.collection.empty.Yields trace (kind.wrap []) trace :=
    Gathering.empty_yields.mpr ⟨rfl, rfl⟩
  have first : (kind.collection.first world.heap sample).Yields trace none trace :=
    (Heap.first_yields shape).mpr ⟨rfl, rfl⟩
  have listed : world.heap.iterate (.list plains) = .ok plains := rfl
  rw [parseCollection_eq]
  exact emptied.bind.trans (first.bind.trans ((Run.yields_of_ok listed).bind.trans
    (Gathering.insertAll_yields trace gathered)))

theorem parseCollection_passed {representative : Value} {rest : List Value} {outcome : Outcome}
    (shape : world.heap.gathering? sample = some (kind, representative :: rest))
    (passed : (parseElements parse world.heap config kind.collection type representative path 0
      (kind.wrap []) plains).Gives events outcome) :
    (parseCollection parse world config kind.collection (some type) path sample
      (.list plains)).Gives events outcome := by
  have emptied (trace : Trace) : kind.collection.empty.Yields trace (kind.wrap []) trace :=
    Gathering.empty_yields.mpr ⟨rfl, rfl⟩
  have first (trace : Trace) :
      (kind.collection.first world.heap sample).Yields trace (some representative) trace :=
    (Heap.first_yields shape).mpr ⟨rfl, rfl⟩
  have bound (trace : Trace) :
      (elementType world config (some type) representative).Yields trace type trace :=
    Run.yields_pure.mpr ⟨rfl, rfl⟩
  have listed : world.heap.iterate (.list plains) = .ok plains := rfl
  rw [parseCollection_eq]
  exact (Run.gives_of_yields emptied).bind ((Run.gives_of_yields first).bind
    ((Run.gives_of_yields bound).bind
      ((Run.gives_of_yields fun _ => Run.yields_of_ok listed).bind passed)))

/-- The element fits and is parsed to the other value, with such events only. -/
def ParsedTo (events : Event → Prop) (parse : Parse) (heap : Heap) (type : ValueType)
    (sample plain again : Value) : Prop :=
  (∀ trace, (type.fit heap plain sample).Yields trace .toParse trace) ∧
    ∀ place, (parse type place sample plain).Gives events (.ok again)

theorem parseElements_gives {elements : List Value} {index : Nat}
    (each : List.Forall₂ (ParsedTo events parse world.heap type sample) plains agains)
    (gathered : kind.gather world.heap elements agains = .ok grown) :
    (parseElements parse world.heap config kind.collection type sample path index
      (kind.wrap elements) plains).Gives events (.ok (kind.wrap grown)) := by
  induction each generalizing elements index with
  | nil =>
      cases gathered
      exact Run.gives_of_yields fun trace => Run.yields_pure.mpr ⟨rfl, rfl⟩
  | @cons plain again _ _ parsed _ ih =>
      obtain ⟨fits, parses⟩ := parsed
      simp only [Gathering.gather] at gathered
      split at gathered
      next => cases gathered
      next next added =>
        have inserted (trace : Trace) : (kind.collection.insert world.heap (kind.wrap elements)
            again).Yields trace (kind.wrap next) trace :=
          Gathering.insert_yields.mpr ⟨next, added, rfl, rfl⟩
        exact (Run.gives_of_yields fits).bind ((parses _).bind
          ((Run.gives_of_yields inserted).bind (ih gathered)))

end Runs

section Collections

variable {events : Event → Prop} {world : World} {config : Configuration} {type : ValueType}
  {sample value stored : Value}

/-- A collection is restored when its members are and the collection made of them once more has the
size that the value was measured to have. -/
theorem restores_gathered {kind : Gathering} {samples values members plains agains first second :
    List Value} (typed : world.heap.Typed sample type)
    (shape : world.heap.gathering? sample = some (kind, samples))
    (held : world.heap.gathering? stored = some (kind, members))
    (accepted : kind.collection.accepts (world.heap.look value) = true)
    (listed : world.heap.iterate value = .ok values)
    (one : kind.gather world.heap [] values = .ok first)
    (two : kind.gather world.heap [] plains = .ok second) (count : first.length = second.length)
    (finite : ∀ member ∈ members, world.heap.Finite member)
    (made : List.Forall₂ world.heap.HasPlain members plains)
    (json : ∀ plain ∈ plains, world.heap.Json plain)
    (alike : world.heap.Alike stored (kind.wrap agains))
    (parses : ∀ limit path, world.heap.Within limit (.list plains) →
      (Validation.parseTo world config limit type path sample (.list plains)).Gives events
        (.ok (kind.wrap agains))) :
    Restores events world config type sample value stored (.list plains) (kind.wrap agains) where
  finite := Heap.finite_of_parts (by rwa [Heap.parts_of_gathering held])
  made := .gathered held made
  json := .list rfl json
  present := by simp
  fits := by
    intro trace
    have accepts : kind.collection.fit world.heap (.list plains) = .toParse := by
      rw [Collection.fit_eq_toParse]
      cases kind <;> rfl
    obtain ⟨_, rfl⟩ | ⟨_, _, _, _, rfl, _⟩ := typed.of_gathering shape <;>
      exact Run.yields_pure.mpr ⟨accepts.symm, rfl⟩
  parses := parses
  alike := alike
  same := {
    scalar := by
      intro single
      rw [Heap.gathering_of_isScalar single] at shape
      cases shape
    sized := by
      intro before counted after trace _ measured
      rw [typed.measured shape] at measured ⊢
      rw [Gathering.size_of_gather accepted listed one measured, count]
      exact Gathering.size_list_yields trace two }

/-- Elements taken as they are, each with its plain form. -/
theorem restores_unchecked {values : List Value}
    (shape : world.heap.gathering? sample = some (.array, []))
    (typed : world.heap.Typed sample type) (offered : world.heap.Offered value)
    (accepted : Gathering.array.collection.accepts (world.heap.look value) = true)
    (listed : world.heap.iterate value = .ok values) :
    ∃ plains, Restores events world config type sample value (Gathering.array.wrap values)
      (.list plains) (Gathering.array.wrap plains) := by
  have json := offered.elements accepted listed
  obtain ⟨plains, each⟩ := exists_forall₂ fun element member => (json element member).rendered
  have made : List.Forall₂ world.heap.HasPlain values plains := each.imp fun _ _ it => it.made
  have alike : List.Forall₂ world.heap.Alike values plains := each.imp fun _ _ it => it.alike
  refine ⟨plains, restores_gathered typed shape rfl accepted listed Gathering.gather_array
    Gathering.gather_array each.length_eq (fun element member => (json element member).finite) made
    (forall_mem_of_forall₂ each fun _ _ it => it.json) (.list rfl rfl alike) ?_⟩
  intro limit path within
  obtain ⟨below, rfl⟩ := within.succ
  cases typed.unique (.unchecked shape)
  rw [Validation.OfCollection.unbound.parseTo_eq]
  exact parseCollection_unchecked shape Gathering.gather_array

theorem shapeName_of_passes {parse : Parse} {collection : Collection} {path : String}
    {index dropped : Nat} {gathered result : Value} {values : List Value} {before after : Trace}
    (strict : config.lenient = false)
    (passes : Validation.Passes parse world.heap config collection (.primitive .fallback) sample
      path index gathered values before (.ok result) dropped after) :
    ∀ element ∈ values, world.heap.shapeName sample = world.heap.shapeName element := by
  induction values generalizing index gathered before dropped with
  | nil => simp
  | cons element rest ih =>
      cases passes with
      | settled fit _ _ =>
          simp only [ValueType.fit, Primitive.fit, Run.yields_pure] at fit
          split at fit <;> cases fit.1
      | parsed fit _ _ passes =>
          simp only [ValueType.fit, Primitive.fit, Run.yields_pure] at fit
          split at fit
          next same => exact List.forall_mem_cons.mpr ⟨same, ih passes⟩
          next => cases fit.1
      | skipped _ _ lenient _ _ => simp [strict] at lenient

/-- A set of scalars has them as its plain form, and is made of them once more. -/
theorem restores_members {representative : Value} {rest values members first : List Value}
    {element : ValueType}
    (shape : world.heap.gathering? sample = some (.set, representative :: rest))
    (single : representative.isScalar = true)
    (inner : world.heap.Typed representative element)
    (held : world.heap.gathering? stored = some (.set, members))
    (accepted : Gathering.set.collection.accepts (world.heap.look value) = true)
    (listed : world.heap.iterate value = .ok values)
    (one : Gathering.set.gather world.heap [] values = .ok first)
    (count : first.length = members.length)
    (distinct : Gathering.set.gather world.heap [] members = .ok members)
    (singles : ∀ member ∈ members, member.isScalar = true)
    (shapes : ∀ member ∈ members,
      world.heap.shapeName representative = world.heap.shapeName member) :
    Restores events world config (.bound Gathering.set.collection element) sample value stored
      (.list members)
      (Gathering.set.wrap (members.map (Primitive.parse world.heap representative))) := by
  have plain : IsPlain world representative :=
    ⟨Heap.gathering_of_isScalar single, (Heap.Json.scalar single).isRecord⟩
  have typed : world.heap.Typed sample (.bound Gathering.set.collection element) :=
    .elements shape inner
  cases type_of_isPlain plain inner
  have again : Gathering.set.gather world.heap []
      (members.map (Primitive.parse world.heap representative)) =
        .ok (members.map (Primitive.parse world.heap representative)) :=
    Gathering.set_again distinct
  have alike : List.Forall₂ world.heap.ScalarsAlike members
      (members.map (Primitive.parse world.heap representative)) :=
    List.forall₂_map_right_iff.mpr (List.forall₂_same.mpr fun member known =>
      ⟨singles member known, Primitive.isScalar_parse _ _ (singles member known), by
        rw [Primitive.equal_parse_right]
        exact (Heap.ScalarsAlike.self (singles member known)).2.2⟩)
  refine restores_gathered typed shape held accepted listed one distinct count
    (fun member known => Heap.finite_of_isScalar (singles member known))
    (List.forall₂_same.mpr fun member known => .scalar (singles member known))
    (fun member known => .scalar (singles member known)) (.set held rfl alike) ?_
  intro limit path within
  obtain ⟨below, rfl⟩ := within.succ
  have parsed : List.Forall₂ (ParsedTo events (Validation.parseTo world config below) world.heap
      (.primitive .fallback) representative) members
        (members.map (Primitive.parse world.heap representative)) :=
    List.forall₂_map_right_iff.mpr (List.forall₂_same.mpr fun member known =>
      ⟨fun trace => fits_of_shapeName trace (shapes member known),
        fun place => parses_of_parse below place rfl⟩)
  rw [Validation.OfCollection.bound.parseTo_eq]
  exact parseCollection_passed shape (parseElements_gives parsed again)

/-- A set that a strict run stores is restored. -/
theorem restores_set {representative : Value} {rest values : List Value} {element : ValueType}
    {path : String} {limit dropped : Nat} {result : Value} {before after : Trace}
    (strict : config.lenient = false)
    (shape : world.heap.gathering? sample = some (.set, representative :: rest))
    (single : representative.isScalar = true) (present : representative ≠ .null)
    (inner : world.heap.Typed representative element) (offered : world.heap.Offered value)
    (accepted : Gathering.set.collection.accepts (world.heap.look value) = true)
    (listed : world.heap.iterate value = .ok values)
    (passes : Validation.Passes (Validation.parseTo world config limit) world.heap config
      Gathering.set.collection element representative path 0 (Gathering.set.wrap []) values before
      (.ok result) dropped after) :
    ∃ plain again, Restores events world config (.bound Gathering.set.collection element) sample
      value result plain again := by
  have plain : IsPlain world representative :=
    ⟨Heap.gathering_of_isScalar single, (Heap.Json.scalar single).isRecord⟩
  have inside := inner
  cases type_of_isPlain plain inner
  have shapes := shapeName_of_passes strict passes
  obtain ⟨grown, gathered, rfl, _⟩ := gather_of_plain [] passes
  let parse := Primitive.parse world.heap representative
  have stored : ∀ member ∈ grown.map parse, member.isScalar = true ∧
      world.heap.shapeName representative = world.heap.shapeName member := by
    intro member known
    obtain ⟨original, early, rfl⟩ := List.mem_map.mp known
    have given : original ∈ values := by simpa using Gathering.mem_of_gather gathered early
    have json := offered.elements accepted listed original given
    have same := shapes original given
    have scalar := (Heap.Offered.isScalar (.inl json) single present same).1
    exact ⟨Primitive.isScalar_parse _ _ scalar, same.trans Primitive.shapeName_parse.symm⟩
  -- What was dropped as a duplicate is not in the plain form, and nothing new becomes one.
  exact ⟨_, _, restores_members shape single inside rfl accepted listed gathered (by simp)
    (Gathering.set_again gathered) (fun member known => (stored member known).1)
    (fun member known => (stored member known).2)⟩

/-- Elements, what is stored for them, the plain forms of that, and what those are parsed to. -/
inductive ElementsRestore (events : Event → Prop) (world : World) (config : Configuration)
    (type : ValueType) (sample : Value) :
    List Value → List Value → List Value → List Value → Prop
  | done : ElementsRestore events world config type sample [] [] [] []
  | next {value stored plain again : Value} {values members plains agains : List Value} :
      Restores events world config type sample value stored plain again →
      ElementsRestore events world config type sample values members plains agains →
      ElementsRestore events world config type sample (value :: values) (stored :: members)
        (plain :: plains) (again :: agains)

section Elements

variable {values members plains agains : List Value}

theorem ElementsRestore.length
    (restore : ElementsRestore events world config type sample values members plains agains) :
    values.length = plains.length := by
  induction restore with
  | done => rfl
  | next _ _ ih => simp [ih]

theorem ElementsRestore.finite
    (restore : ElementsRestore events world config type sample values members plains agains) :
    ∀ member ∈ members, world.heap.Finite member := by
  induction restore with
  | done => simp
  | next restores _ ih => exact List.forall_mem_cons.mpr ⟨restores.finite, ih⟩

theorem ElementsRestore.made
    (restore : ElementsRestore events world config type sample values members plains agains) :
    List.Forall₂ world.heap.HasPlain members plains := by
  induction restore with
  | done => exact .nil
  | next restores _ ih => exact .cons restores.made ih

theorem ElementsRestore.json
    (restore : ElementsRestore events world config type sample values members plains agains) :
    ∀ plain ∈ plains, world.heap.Json plain := by
  induction restore with
  | done => simp
  | next restores _ ih => exact List.forall_mem_cons.mpr ⟨restores.json, ih⟩

theorem ElementsRestore.alike
    (restore : ElementsRestore events world config type sample values members plains agains) :
    List.Forall₂ world.heap.Alike members agains := by
  induction restore with
  | done => exact .nil
  | next restores _ ih => exact .cons restores.alike ih

theorem ElementsRestore.parsed {limit : Nat}
    (restore : ElementsRestore events world config type sample values members plains agains)
    (within : ∀ plain ∈ plains, world.heap.Within limit plain) :
    List.Forall₂ (ParsedTo events (Validation.parseTo world config limit) world.heap type sample)
      plains agains := by
  induction restore with
  | done => exact .nil
  | next restores _ ih =>
      simp only [List.forall_mem_cons] at within
      have parsed : ParsedTo events (Validation.parseTo world config limit) world.heap type sample
          _ _ :=
        ⟨restores.fits, fun place => restores.parses limit place within.1⟩
      exact .cons parsed (ih within.2)

end Elements

/-- Whatever a parser stores for values that fit restorable samples is restored, and nothing is
added to the trace. -/
def ParseRestores (world : World) (config : Configuration) (root : Schema) (parse : Parse) : Prop :=
  ∀ {type path sample value fitting fitted before stored after},
    world.heap.Typed sample type → Covered world root sample → world.heap.Restorable sample →
    world.heap.Offered value → (type.fit world.heap value sample).Yields fitting .toParse fitted →
    (parse type path sample value).Yields before (.ok stored) after →
    ∃ plain again, Restores (fun _ => False) world config type sample value stored plain again

theorem elements_restore {parse : Parse} {root : Schema} {element : ValueType} {path : String}
    {index dropped : Nat} {gathered values : List Value} {result : Value} {before after : Trace}
    (sound : ParseRestores world config root parse) (strict : config.lenient = false)
    (typed : world.heap.Typed sample element) (covered : Covered world root sample)
    (restorable : world.heap.Restorable sample)
    (json : ∀ value ∈ values, world.heap.Json value)
    (passes : Validation.Passes parse world.heap config Gathering.array.collection element sample
      path index (Gathering.array.wrap gathered) values before (.ok result) dropped after) :
    ∃ members plains agains, result = Gathering.array.wrap (gathered ++ members) ∧
      ElementsRestore (fun _ => False) world config element sample values members plains
        agains := by
  induction values generalizing index gathered before dropped with
  | nil =>
      cases passes
      exact ⟨[], [], [], by simp, .done⟩
  | cons value rest ih =>
      simp only [List.forall_mem_cons] at json
      cases passes with
      | settled fit _ _ =>
          have record := (record_of_settled typed fit).2
          simp [json.1.isRecord] at record
      | parsed fit parsed inserted passes =>
          obtain ⟨grown, added, rfl, rfl⟩ := Gathering.insert_yields.mp inserted
          cases added
          obtain ⟨plain, again, restores⟩ := sound typed covered restorable (.inl json.1) fit parsed
          obtain ⟨members, plains, agains, rfl, restore⟩ := ih json.2 passes
          exact ⟨_, _, _, by simp, .next restores restore⟩
      | skipped _ _ lenient _ _ => simp [strict] at lenient

/-- A list whose elements are restored is. -/
theorem restores_list {representative : Value} {rest values members plains agains : List Value}
    {element : ValueType}
    (shape : world.heap.gathering? sample = some (.array, representative :: rest))
    (inner : world.heap.Typed representative element)
    (held : world.heap.look stored = .list members)
    (accepted : Gathering.array.collection.accepts (world.heap.look value) = true)
    (listed : world.heap.iterate value = .ok values)
    (restore : ElementsRestore events world config element representative values members plains
      agains) :
    Restores events world config (.bound Gathering.array.collection element) sample value stored
      (.list plains) (Gathering.array.wrap agains) := by
  have typed : world.heap.Typed sample (.bound Gathering.array.collection element) :=
    .elements shape inner
  have gathered : world.heap.gathering? stored = some (.array, members) := by
    simp [Heap.gathering?, held]
  refine restores_gathered typed shape gathered accepted listed Gathering.gather_array
    Gathering.gather_array restore.length restore.finite restore.made restore.json
    (.list held rfl restore.alike) ?_
  intro limit path within
  obtain ⟨below, rfl⟩ := within.succ
  rw [Validation.OfCollection.bound.parseTo_eq]
  exact parseCollection_passed shape (parseElements_gives (restore.parsed within)
    Gathering.gather_array)

end Collections

end Exemplar
