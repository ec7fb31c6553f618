import Exemplar.Proofs.Locality

/-!
Copies that are written out. A copy is made of fresh cells that refer to fresh cells only, so nothing
that was there before is come to from it.
-/

namespace Exemplar

namespace Heap

variable {heap before after : Heap} {value part : Value} {base index fuel : Nat}

/-- A reference to one of the cells from a base on, or no reference at all. -/
def Beyond (heap : Heap) (base : Nat) (value : Value) : Prop :=
  ∀ index, value = .ref index → base ≤ index ∧ index < heap.cells.size

/-- The cells from the base on refer to no cell before it. -/
def Detached (heap : Heap) (base : Nat) : Prop :=
  ∀ index, base ≤ index → ∀ part ∈ (heap.cell index).parts, heap.Beyond base part

theorem Beyond.grow (beyond : before.Beyond base value)
    (grows : before.cells.size ≤ after.cells.size) : after.Beyond base value :=
  fun index same => ⟨(beyond index same).1, Nat.lt_of_lt_of_le (beyond index same).2 grows⟩

theorem cell_of_size_le (beyond : heap.cells.size ≤ index) : heap.cell index = .null := by
  simp [cell, Nat.not_lt.mpr beyond]

theorem detached_size : heap.Detached heap.cells.size := by
  intro index beyond part member
  rw [cell_of_size_le beyond] at member
  cases member

/-- A fresh cell is written to. -/
theorem Detached.write (detached : heap.Detached base)
    (each : ∀ part ∈ value.parts, heap.Beyond base part) :
    (heap.write index value).Detached base := by
  have size : heap.cells.size ≤ (heap.write index value).cells.size := by simp [Heap.write]
  intro other beyond part member
  by_cases same : other = index
  · subst same
    by_cases known : other < heap.cells.size
    · rw [cell_write_self known] at member
      exact (each part member).grow size
    · rw [cell_of_size_le (by simpa [Heap.write] using known)] at member
      cases member
  · rw [cell_write_of_ne same] at member
    exact (detached other beyond part member).grow size

theorem Detached.reserve (detached : heap.Detached base) : (heap.store .null).2.Detached base := by
  have size : heap.cells.size ≤ (heap.store .null).2.cells.size := by simp [Heap.store]
  intro index beyond part member
  rcases Nat.lt_trichotomy index heap.cells.size with old | rfl | past
  · rw [cell_store_of_lt old] at member
    exact (detached index beyond part member).grow size
  · rw [cell_store_self] at member
    cases member
  · rw [cell_of_size_le (by simpa [Heap.store] using Nat.succ_le_of_lt past)] at member
    cases member

/-- Cells that refer to each other only are left by no path. -/
theorem spans_confined {among : Nat → Prop}
    (closed : ∀ cell, among cell → ∀ part ∈ (heap.cell cell).parts, ∀ inner, part = .ref inner →
      among inner)
    (flat : heap.Flat) (stored : value.Stored) (first : ∀ cell, value = .ref cell → among cell)
    (spans : heap.Spans value index) : among index := by
  induction spans with
  | ref => exact first _ rfl
  | copy => exact stored.elim
  | within member _ ih =>
      rcases eq_ref_or_bare stored with ⟨cell, rfl⟩ | bare
      · exact ih (flat cell _ member) (closed cell (first cell rfl) _ member)
      · rw [bare heap] at member
        cases member

/-- What each step leaves as it should be, and makes so, is so of all that is made. -/
theorem threadAll_holds {State : Type} (keeps : State → Prop) (holds : State → Value → Prop)
    {step : Value → State → Value × State} {values : List Value} {state : State}
    (each : ∀ value ∈ values, ∀ state, keeps state → keeps (step value state).2 ∧
      holds (step value state).2 (step value state).1 ∧
      ∀ other, holds state other → holds (step value state).2 other)
    (first : keeps state) :
    keeps (threadAll step values state).2 ∧
      (∀ part ∈ (threadAll step values state).1, holds (threadAll step values state).2 part) ∧
      ∀ other, holds state other → holds (threadAll step values state).2 other := by
  induction values generalizing state with
  | nil => exact ⟨first, nofun, fun _ held => held⟩
  | cons value rest ih =>
      rw [List.forall_mem_cons] at each
      obtain ⟨kept, made, older⟩ := each.1 state first
      obtain ⟨final, parts, later⟩ := ih each.2 kept
      exact ⟨final, List.forall_mem_cons.mpr ⟨later _ made, parts⟩,
        fun other held => later other (older other held)⟩

/-- A part of what is copied: an object is copied in turn, a plain value is taken over. -/
def copyPart (fuel : Nat) (value : Value) (state : Copies × Heap) : Value × Copies × Heap :=
  match value with
  | .ref inner => writeCopy fuel inner state
  | value => (value, state)

/-- A cell that has not been copied yet gets a fresh one, which is filled after its parts. -/
theorem writeCopy_of_new {copies : Copies} (new : copyOf? copies index = none) :
    writeCopy (fuel + 1) index (copies, heap) =
      let copied := threadAll (copyPart fuel) (heap.cell index).parts
        ((index, heap.cells.size) :: copies, (heap.store .null).2)
      (.ref heap.cells.size, copied.2.1,
        copied.2.2.write heap.cells.size ((heap.cell index).withParts copied.1)) := by
  rw [writeCopy, new]
  rfl

theorem writeCopy_of_known {copies : Copies} {copy : Nat}
    (known : copyOf? copies index = some copy) :
    writeCopy (fuel + 1) index (copies, heap) = (.ref copy, copies, heap) := by
  rw [writeCopy, known]

theorem mem_of_copyOf {copies : Copies} {copy : Nat} (known : copyOf? copies index = some copy) :
    (index, copy) ∈ copies := by
  obtain ⟨entry, found, rfl⟩ := Option.map_eq_some_iff.mp known
  have same : entry.1 = index := by simpa using List.find?_some found
  exact same ▸ List.mem_of_find?_eq_some found

/-- What has been copied so far stands in fresh cells that are detached from the old ones. -/
structure Copying (base : Nat) (state : Copies × Heap) : Prop where
  flat : state.2.Flat
  detached : state.2.Detached base
  copies : ∀ copy ∈ state.1, base ≤ copy.2 ∧ copy.2 < state.2.cells.size
  room : base ≤ state.2.cells.size

namespace Copying

theorem reserve {copies : Copies} (copying : Copying base (copies, heap)) :
    Copying base ((index, heap.cells.size) :: copies, (heap.store .null).2) := by
  have grown : heap.cells.size < (heap.store .null).2.cells.size := by simp [Heap.store]
  refine ⟨copying.flat.store (by simp [Value.parts]), copying.detached.reserve, ?_,
    Nat.le_trans copying.room (Nat.le_of_lt grown)⟩
  refine List.forall_mem_cons.mpr ⟨⟨copying.room, grown⟩, fun copy member => ?_⟩
  have known := copying.copies copy member
  exact ⟨known.1, Nat.lt_trans known.2 grown⟩

theorem write {copies : Copies} (copying : Copying base (copies, heap))
    (each : ∀ part ∈ value.parts, heap.Beyond base part ∧ part.Stored) :
    Copying base (copies, heap.write index value) where
  flat := copying.flat.write fun part member => (each part member).2
  detached := copying.detached.write fun part member => (each part member).1
  copies := by simpa [Heap.write] using copying.copies
  room := by simpa [Heap.write] using copying.room

/-- A copy that is written out refers to what was written out with it. -/
theorem writeCopy {state : Copies × Heap} (copying : Copying base state) :
    Copying base (Heap.writeCopy fuel index state).2 ∧
      (Heap.writeCopy fuel index state).2.2.Beyond base (Heap.writeCopy fuel index state).1 ∧
      state.2.cells.size ≤ (Heap.writeCopy fuel index state).2.2.cells.size := by
  induction fuel generalizing index state with
  | zero => exact ⟨copying, nofun, Nat.le_refl _⟩
  | succ fuel ih =>
      obtain ⟨copies, heap⟩ := state
      cases known : copyOf? copies index with
      | some copy =>
          rw [writeCopy_of_known known]
          refine ⟨copying, fun index same => ?_, Nat.le_refl _⟩
          cases same
          exact copying.copies _ (mem_of_copyOf known)
      | none =>
          -- The cell reserved for the copy stays inside while its parts are copied.
          let keeps (state : Copies × Heap) : Prop :=
            Copying base state ∧ heap.cells.size < state.2.cells.size
          let holds (state : Copies × Heap) (value : Value) : Prop :=
            state.2.Beyond base value ∧ value.Stored
          have each : ∀ value ∈ (heap.cell index).parts, ∀ state, keeps state →
              keeps (copyPart fuel value state).2 ∧
                holds (copyPart fuel value state).2 (copyPart fuel value state).1 ∧
                ∀ other, holds state other → holds (copyPart fuel value state).2 other := by
            rintro value member state ⟨ongoing, room⟩
            have stored := copying.flat index value member
            cases value with
            | ref inner =>
                obtain ⟨kept, beyond, grown⟩ := @ih inner state ongoing
                exact ⟨⟨kept, Nat.lt_of_lt_of_le room grown⟩, ⟨beyond, stored_of_writeCopy⟩,
                  fun _ held => ⟨held.1.grow grown, held.2⟩⟩
            | _ => exact ⟨⟨ongoing, room⟩, ⟨nofun, stored⟩, fun _ held => held⟩
          have first : keeps ((index, heap.cells.size) :: copies, (heap.store .null).2) :=
            ⟨copying.reserve, by simp [Heap.store]⟩
          obtain ⟨⟨copied, room⟩, parts, _⟩ := threadAll_holds keeps holds each first
          rw [writeCopy_of_new known]
          refine ⟨copied.write fun part member => parts part (mem_of_mem_parts_withParts member),
            fun inner same => ?_, ?_⟩
          · cases same
            exact ⟨copying.room, by simpa [Heap.write] using room⟩
          · simpa [Heap.write] using Nat.le_of_lt room

end Copying

theorem place_copy {cell : Nat} :
    heap.place (.copy cell) = ((writeCopy (heap.cells.size + 1) cell ([], heap)).1,
      (writeCopy (heap.cells.size + 1) cell ([], heap)).2.2) := by
  rw [place]

/-- A copy that has been written out leads to nothing that was there before. -/
theorem spans_placed_copy {cell : Nat} (flat : heap.Flat)
    (spans : (heap.place (.copy cell)).2.Spans (heap.place (.copy cell)).1 index) :
    heap.cells.size ≤ index ∧ index < (heap.place (.copy cell)).2.cells.size := by
  have start : Copying heap.cells.size (([], heap) : Copies × Heap) :=
    ⟨flat, detached_size, nofun, Nat.le_refl _⟩
  rw [place_copy] at spans ⊢
  obtain ⟨copied, beyond, _⟩ := start.writeCopy
  exact spans_confined (fun cell known part member =>
    copied.detached cell known.1 part member) copied.flat stored_of_writeCopy beyond spans

end Heap

end Exemplar
