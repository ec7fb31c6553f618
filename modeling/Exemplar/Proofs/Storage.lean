import Exemplar.Heap

/-!
Storing values. What is stored gets cells of its own; no cell that was there is written to.
-/

namespace Exemplar

namespace Heap

variable {heap before middle after : Heap} {index : Nat} {value : Value}

/-- More may have been stored, and what was stored has not been touched. -/
structure Grows (before after : Heap) : Prop where
  size : before.cells.size ≤ after.cells.size
  kept : ∀ index < before.cells.size, after.cell index = before.cell index

theorem Grows.refl (heap : Heap) : heap.Grows heap := ⟨Nat.le_refl _, fun _ _ => rfl⟩

theorem Grows.trans (one : before.Grows middle) (other : middle.Grows after) :
    before.Grows after where
  size := Nat.le_trans one.size other.size
  kept index old :=
    (other.kept index (Nat.lt_of_lt_of_le old one.size)).trans (one.kept index old)

theorem Grows.store (grows : before.Grows after) : before.Grows (after.store value).2 := by
  refine grows.trans ⟨by simp [Heap.store], fun index old => cell_store_of_lt old⟩

/-- A fresh cell may be written to. -/
theorem Grows.write (grows : before.Grows after) (fresh : before.cells.size ≤ index) :
    before.Grows (after.write index value) where
  size := by simpa [Heap.write] using grows.size
  kept other old := by
    rw [cell_write_of_ne (Nat.ne_of_lt (Nat.lt_of_lt_of_le old fresh))]
    exact grows.kept other old

theorem threadAll_preserves {State : Type} (keeps : State → Prop)
    {step : Value → State → Value × State}
    (each : ∀ value state, keeps state → keeps (step value state).2)
    {values : List Value} {state : State} (first : keeps state) :
    keeps (threadAll step values state).2 := by
  induction values generalizing state with
  | nil => exact first
  | cons value rest ih => exact ih (each value state first)

theorem Grows.writeCopy {fuel : Nat} {state : Copies × Heap} (grows : before.Grows state.2) :
    before.Grows (Heap.writeCopy fuel index state).2.2 := by
  induction fuel generalizing index state with
  | zero => exact grows
  | succ fuel ih =>
      obtain ⟨copies, heap⟩ := state
      unfold Heap.writeCopy
      split
      next => exact grows
      next =>
        refine Grows.write ?_ grows.size
        let keeps (state : Copies × Heap) : Prop := before.Grows state.2
        refine threadAll_preserves keeps (fun value state grown => ?_) grows.store
        split
        next => exact ih grown
        next => exact grown

mutual

theorem Grows.place : ∀ (value : Value) {after : Heap}, before.Grows after →
    before.Grows (after.place value).2
  | .list elements, _, grows => (Grows.placeAll elements grows).store
  | .tuple elements, _, grows => (Grows.placeAll elements grows).store
  | .set elements, _, grows => (Grows.placeAll elements grows).store
  | .frozenSet elements, _, grows => (Grows.placeAll elements grows).store
  | .deque elements, _, grows => (Grows.placeAll elements grows).store
  | .mapping entries, _, grows => (Grows.placeEntries entries grows).store
  | .record _ fields, _, grows => (Grows.placeFields fields grows).store
  | .copy index, heap, grows => by
      have state : before.Grows (([], heap) : Copies × Heap).2 := grows
      have written : before.Grows (Heap.writeCopy (heap.cells.size + 1) index ([], heap)).2.2 :=
        state.writeCopy
      exact written
  | .null, _, grows => grows
  | .bool _, _, grows => grows
  | .int _, _, grows => grows
  | .bigInteger _, _, grows => grows
  | .float _, _, grows => grows
  | .text _, _, grows => grows
  | .bytes _, _, grows => grows
  | .date _, _, grows => grows
  | .mode _, _, grows => grows
  | .pattern _, _, grows => grows
  | .failure _, _, grows => grows
  | .ref _, _, grows => grows

theorem Grows.placeAll : ∀ (values : List Value) {after : Heap}, before.Grows after →
    before.Grows (after.placeAll values).2
  | [], _, grows => grows
  | value :: rest, _, grows => Grows.placeAll rest (Grows.place value grows)

theorem Grows.placeEntries : ∀ (entries : List (Value × Value)) {after : Heap}, before.Grows after →
    before.Grows (after.placeEntries entries).2
  | [], _, grows => grows
  | (key, value) :: rest, _, grows =>
      Grows.placeEntries rest (Grows.place value (Grows.place key grows))

theorem Grows.placeFields : ∀ (fields : List (String × Value)) {after : Heap}, before.Grows after →
    before.Grows (after.placeFields fields).2
  | [], _, grows => grows
  | (_, value) :: rest, _, grows => Grows.placeFields rest (Grows.place value grows)

end

end Heap

end Exemplar
