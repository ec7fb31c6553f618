import Exemplar.Proofs.Copies
import Exemplar.Proofs.Defaults
import Exemplar.Proofs.Sizes

/-!
Objects that nobody else may change. A value spares a set of objects if it leads to none of them but
such as cannot change. What spares them goes on to do so when more is stored, and when an object that
is not one of them is changed to hold what spares them too.
-/

namespace Exemplar

namespace Heap

variable {heap after : Heap} {own : Nat → Prop} {value part shape : Value} {index : Nat}

/-- A part after a change was there before, or is in what is written, or is copied from there. -/
theorem mem_parts_write (member : part ∈ ((heap.write index shape).look value).parts) :
    part ∈ (heap.look value).parts ∨ ∃ inner ∈ shape.parts, part = inner ∨ part = inner.copied := by
  have either (other : Nat) : (heap.write index shape).cell other = heap.cell other ∨
      (heap.write index shape).cell other = shape := by
    by_cases same : other = index
    · subst same
      by_cases known : other < heap.cells.size
      · exact .inr (cell_write_self known)
      · simp [Heap.write, cell, known]
    · exact .inl (cell_write_of_ne same)
  cases value with
  | ref cell =>
      rcases either cell with same | same <;> rw [look_ref, same] at member
      · exact .inl member
      · exact .inr ⟨part, member, .inl rfl⟩
  | copy cell =>
      rcases either cell with same | same <;> rw [look_copy, same] at member
      · exact .inl member
      · rw [Value.parts_copied] at member
        obtain ⟨inner, known, rfl⟩ := List.mem_map.mp member
        exact .inr ⟨inner, known, .inr rfl⟩
  | _ => exact .inl member

/-- The value leads to none of the objects but such as cannot change. -/
def Spares (heap : Heap) (own : Nat → Prop) (value : Value) : Prop :=
  ∀ index, heap.Spans value index →
    index < heap.cells.size ∧ (own index → (heap.cell index).changeable = false)

namespace Spares

theorem inside (spares : heap.Spares own value) (member : part ∈ (heap.look value).parts) :
    heap.Spares own part :=
  fun index spans => spares index (.within member spans)

theorem held (spares : heap.Spares own value) (held : heap.Holds value part) :
    heap.Spares own part := by
  induction held with
  | self => exact spares
  | inside member _ ih => exact ih (spares.inside member)

theorem copied (spares : heap.Spares own value) : heap.Spares own value.copied :=
  fun index spans => spares index (spans_of_copied spans)

theorem agrees (spares : heap.Spares own value) (grows : heap.Grows after) :
    heap.Agrees after value :=
  fun index spans => grows.kept index (spares index spans).1

theorem grow (spares : heap.Spares own value) (grows : heap.Grows after) :
    after.Spares own value := by
  intro index spans
  obtain ⟨inside, fixed⟩ := spares index ((spares.agrees grows).spans_iff.mp spans)
  rw [grows.kept index inside]
  exact ⟨Nat.lt_of_lt_of_le inside grows.size, fixed⟩

/-- An object that is none of those is changed to hold what spares them. -/
theorem write (spares : heap.Spares own value) (other : ¬ own index)
    (each : ∀ part ∈ shape.parts, heap.Spares own part) :
    (heap.write index shape).Spares own value := by
  have known {cell : Nat}
      (spared : cell < heap.cells.size ∧ (own cell → (heap.cell cell).changeable = false)) :
      cell < (heap.write index shape).cells.size ∧
        (own cell → ((heap.write index shape).cell cell).changeable = false) := by
    refine ⟨by simpa [Heap.write] using spared.1, fun owned => ?_⟩
    have different : cell ≠ index := by
      rintro rfl
      exact other owned
    rw [cell_write_of_ne different]
    exact spared.2 owned
  intro cell spans
  induction spans with
  | ref => exact known (spares _ .ref)
  | copy => exact known (spares _ .copy)
  | within member _ ih =>
      refine ih ?_
      rcases mem_parts_write member with before | ⟨inner, written, rfl | rfl⟩
      · exact spares.inside before
      · exact each _ written
      · exact (each _ written).copied

end Spares

/-- A plain value leads nowhere, whatever is stored. -/
theorem not_spans_of_plain (stored : value.Stored) (plain : ∀ cell, value ≠ .ref cell) :
    ¬ heap.Spans value index := by
  intro spans
  cases spans with
  | ref => exact plain _ rfl
  | copy => exact stored
  | within member _ =>
      rcases eq_ref_or_bare stored with ⟨cell, rfl⟩ | bare
      · exact plain cell rfl
      · rw [bare heap] at member
        cases member

theorem Spares.of_plain (stored : value.Stored) (plain : ∀ cell, value ≠ .ref cell) :
    heap.Spares own value :=
  fun _ spans => absurd spans (not_spans_of_plain stored plain)

/-- What is new leads to none of the objects that were there before. -/
theorem Spares.of_fresh {base : Nat} (owned : ∀ index, own index → index < base)
    (fresh : ∀ index, heap.Spans value index → base ≤ index ∧ index < heap.cells.size) :
    heap.Spares own value :=
  fun index spans => ⟨(fresh index spans).2,
    fun mine => absurd (owned index mine) (Nat.not_lt.mpr (fresh index spans).1)⟩

/-- A plain value is a copy of itself. -/
theorem copied_of_plain (stored : value.Stored) (plain : ∀ cell, value ≠ .ref cell) :
    value.copied = value := by
  cases value <;> first | rfl | exact stored.elim | exact absurd rfl (plain _)

theorem Agrees.grow {origin : Heap} (agrees : origin.Agrees heap value) (grows : heap.Grows after)
    (known : ∀ index, origin.Spans value index → index < heap.cells.size) :
    origin.Agrees after value := by
  intro index spans
  rw [grows.kept index (known index spans)]
  exact agrees index spans

/-- An empty collection takes one cell. -/
theorem place_wrap_nil {kind : Gathering} :
    heap.place (kind.wrap []) = heap.store (kind.wrap []) := by
  cases kind <;> rfl

theorem spans_placed_wrap_nil {kind : Gathering}
    (spans : (heap.place (kind.wrap [])).2.Spans (heap.place (kind.wrap [])).1 index) :
    heap.cells.size ≤ index ∧ index < (heap.place (kind.wrap [])).2.cells.size := by
  rw [place_wrap_nil] at spans ⊢
  cases spans with
  | ref => simp [Heap.store]
  | within member _ =>
      rw [store_fst, look_ref, cell_store_self, Gathering.parts_wrap] at member
      cases member

theorem place_record_eq {recordClass : RecordClass} {fields : List (String × Value)} :
    heap.place (.record recordClass fields) =
      (heap.placeFields fields).2.store (.record recordClass (heap.placeFields fields).1) := by
  rw [place]

/-- What stands under a name in fields that are stored has been placed after some of the others. -/
theorem get?_placeFields {fields : Named Value} {name : String} (flat : heap.Flat)
    (found : Named.get? name fields = some value) :
    ∃ before, heap.Grows before ∧ before.Flat ∧
      Named.get? name (heap.placeFields fields).1 = some (before.place value).1 ∧
      (before.place value).2.Grows (heap.placeFields fields).2 := by
  induction fields generalizing heap with
  | nil => cases found
  | cons field rest ih =>
      obtain ⟨key, first⟩ := field
      by_cases same : key = name
      · simp only [Named.get?, if_pos same, Option.some.injEq] at found
        subst found
        exact ⟨heap, .refl heap, flat, if_pos same, Grows.placeFields rest (.refl _)⟩
      · simp only [Named.get?, if_neg same] at found
        obtain ⟨before, grows, kept, placed, after⟩ := ih (Flat.place first flat).2 found
        exact ⟨before, (Grows.place first (.refl heap)).trans grows, kept,
          (if_neg same).trans placed, after⟩

end Heap

theorem Heap.mem_interleave_setEntry {heap : Heap} {key value part : Value}
    {entries : List (Value × Value)}
    (member : part ∈ Value.interleave (heap.setEntry key value entries)) :
    part ∈ Value.interleave entries ∨ part = key ∨ part = value := by
  induction entries with
  | nil =>
      simp only [setEntry, Value.interleave, List.mem_cons, List.not_mem_nil, or_false] at member
      exact .inr member
  | cons entry rest ih =>
      unfold setEntry at member
      split at member <;> simp only [Value.interleave, List.mem_cons] at member ⊢
      · grind
      · grind

namespace Session

open Act

variable {before after : Session} {target value : Value} {key : Option Value} {name : String}
  {done : Except Fault Unit}

/-- The session with another value in a cell. -/
def rewritten (session : Session) (index : Nat) (shape : Value) : Session :=
  { session with world := { session.world with heap := session.world.heap.write index shape } }

/-- One object has been changed, the target: each of its parts was there before or is given. -/
structure Alters (before after : Session) (target : Value) (given : List Value) (index : Nat)
    (shape : Value) : Prop where
  target : target = .ref index
  changeable : (before.world.heap.cell index).changeable = true
  parts : ∀ part ∈ shape.parts, part ∈ (before.world.heap.cell index).parts ∨ part ∈ given
  after : after = before.rewritten index shape

theorem alters_of_setAttribute {given : List Value} (among : value ∈ given)
    (ended : (setAttribute target name value).Ends before done after) :
    after = before ∨ ∃ index shape, Alters before after target given index shape := by
  simp only [setAttribute, ends_bind_current] at ended
  split at ended
  next index recordClass fields shape =>
    rw [Heap.look_ref] at shape
    refine .inr ⟨index, _, rfl, by rw [shape]; rfl, fun part member => ?_, (ends_modify.mp ended).2⟩
    rw [shape]
    obtain ⟨field, known, rfl⟩ := List.mem_map.mp member
    rcases Named.mem_set known with rfl | old
    · exact .inr among
    · exact .inl (List.mem_map_of_mem old)
  next =>
    split at ended
    next => exact .inl (ends_throw.mp ended).2
    next => exact .inl (ends_pure.mp ended).2

/-- A change is made to an object that can change, or not at all. -/
theorem alters_of_mutate (ended : (mutate target key value).Ends before done after) :
    after = before ∨
      ∃ index shape, Alters before after target [Value.orNull key, value] index shape := by
  simp only [mutate, ends_bind_current] at ended
  split at ended
  next index entries shape =>
    rw [Heap.look_ref] at shape
    rcases ends_bind.mp ended with ⟨_, middle, hashed, changed⟩ | ⟨_, failed, _⟩
    · obtain ⟨_, rfl⟩ := ends_lift.mp hashed
      refine .inr ⟨index, _, rfl, by rw [shape]; rfl, fun part member => ?_,
        (ends_modify.mp changed).2⟩
      rw [shape]
      simpa [Value.parts] using Heap.mem_interleave_setEntry member
    · exact .inl (ends_lift.mp failed).2
  next index members shape =>
    rw [Heap.look_ref] at shape
    rcases ends_bind.mp ended with ⟨grown, middle, added, changed⟩ | ⟨_, failed, _⟩
    · obtain ⟨added, rfl⟩ := ends_lift.mp added
      refine .inr ⟨index, _, rfl, by rw [shape]; rfl, fun part member => ?_,
        (ends_modify.mp changed).2⟩
      rw [shape]
      have member : part ∈ members ∨ part = value := by
        rw [Value.parts, (Heap.addMember_ok added.symm).2] at member
        split at member
        next => exact .inl member
        next => simpa using member
      exact member.imp_right (by simp +contextual)
    · exact .inl (ends_lift.mp failed).2
  next index elements shape =>
    rw [Heap.look_ref] at shape
    refine .inr ⟨index, _, rfl, by rw [shape]; rfl, fun part member => ?_, (ends_modify.mp ended).2⟩
    rw [shape]
    have member : part ∈ elements ∨ part = value := by simpa [Value.parts] using member
    exact member.imp_right (by simp +contextual)
  next =>
    split at ended
    · exact alters_of_setAttribute (by simp) ended
    · exact alters_of_setAttribute (by simp) ended

end Session

end Exemplar
