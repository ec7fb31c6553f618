import Exemplar.Proofs.Coherence
import Exemplar.Proofs.Documents
import Mathlib.Data.Fintype.EquivFin
import Mathlib.Logic.Relation
import Mathlib.Order.WellFounded

/-!
Circles of objects. What is stored holds no object in place, so the objects of a heap form a graph
over its cells. A traversal follows some parts of what it comes to; where none of the graph's
circles is made of parts that it follows, it comes to an end at every value, and the cells bound how
deep it goes.
-/

namespace Exemplar

namespace Heap

variable {heap : Heap} {inside : Value → List Value} {value part shape : Value} {index levels : Nat}
  {values : List Value} {entries : List (Value × Value)} {fields : List (String × Value)}

/-- Every compound part of a cell has a cell of its own. -/
def Flat (heap : Heap) : Prop := ∀ index, ∀ part ∈ (heap.cell index).parts, part.Stored

section Flatness

theorem flat_of_cells (stored : ∀ shape ∈ heap.cells.toList, ∀ part ∈ shape.parts, part.Stored) :
    heap.Flat := by
  intro index
  rcases heap.mem_cells_or_null index with known | bare
  · exact stored _ known
  · simp [bare, Value.parts]

theorem Flat.store (flat : heap.Flat) (stored : ∀ part ∈ value.parts, part.Stored) :
    (heap.store value).2.Flat := by
  intro index part member
  rcases Nat.lt_trichotomy index heap.cells.size with old | rfl | beyond
  · rw [cell_store_of_lt old] at member
    exact flat index part member
  · rw [cell_store_self] at member
    exact stored part member
  · have unknown : (heap.store value).2.cell index = .null := by
      have far : heap.cells.size ≠ index := Nat.ne_of_lt beyond
      simp [Heap.store, cell, Array.getElem?_push, far.symm, Nat.le_of_lt beyond]
    rw [unknown] at member
    cases member

theorem Flat.write (flat : heap.Flat) (stored : ∀ part ∈ value.parts, part.Stored) :
    (heap.write index value).Flat := by
  intro other part member
  by_cases same : other = index
  · subst same
    by_cases known : other < heap.cells.size
    · rw [cell_write_self known] at member
      exact stored part member
    · simp [Heap.write, cell, known, Value.parts] at member
  · rw [cell_write_of_ne same] at member
    exact flat other part member

theorem mem_interleave_pairUp : ∀ {values : List Value} {part : Value},
    part ∈ Value.interleave (Value.pairUp values) → part ∈ values
  | [], _, member | [_], _, member => by cases member
  | key :: value :: rest, part, member => by
      simp only [Value.pairUp, Value.interleave, List.mem_cons] at member ⊢
      exact member.imp_right (Or.imp_right mem_interleave_pairUp)

theorem mem_of_mem_parts_withParts (member : part ∈ (shape.withParts values).parts) :
    part ∈ values := by
  cases shape with
  | list | tuple | set | frozenSet | deque => exact member
  | mapping => exact mem_interleave_pairUp member
  | record recordClass fields =>
      obtain ⟨field, known, rfl⟩ := List.mem_map.mp member
      exact (List.of_mem_zip known).2
  | _ => cases member

theorem stored_of_writeCopy {fuel : Nat} {state : Copies × Heap} :
    (writeCopy fuel index state).1.Stored := by
  cases fuel with
  | zero => trivial
  | succ fuel =>
      unfold writeCopy
      split <;> trivial

theorem stored_of_threadAll {State : Type} {step : Value → State → Value × State}
    {state : State} (each : ∀ value ∈ values, ∀ state, (step value state).1.Stored) :
    ∀ part ∈ (threadAll step values state).1, part.Stored := by
  induction values generalizing state with
  | nil => simp [threadAll]
  | cons first rest ih =>
      simp only [List.forall_mem_cons] at each
      simp only [threadAll, List.forall_mem_cons]
      exact ⟨each.1 state, ih each.2⟩

theorem Flat.writeCopy {fuel : Nat} {state : Copies × Heap} (flat : state.2.Flat) :
    (Heap.writeCopy fuel index state).2.2.Flat := by
  induction fuel generalizing index state with
  | zero => exact flat
  | succ fuel ih =>
      obtain ⟨copies, heap⟩ := state
      unfold Heap.writeCopy
      split
      next => exact flat
      next =>
        refine Flat.write ?_ fun part member => ?_
        · let keeps (state : Copies × Heap) : Prop := state.2.Flat
          refine threadAll_preserves keeps (fun value state flat => ?_) (flat.store nofun)
          split
          next => exact ih flat
          next => exact flat
        · refine stored_of_threadAll (fun value known state => ?_) part
            (mem_of_mem_parts_withParts member)
          split
          next => exact stored_of_writeCopy
          next => exact flat index value known

mutual

/-- What is placed is stored, and what it is made of is stored in cells that are flat. -/
theorem Flat.place : ∀ (value : Value) {heap : Heap}, heap.Flat →
    (heap.place value).1.Stored ∧ (heap.place value).2.Flat
  | .list elements, _, flat | .tuple elements, _, flat | .set elements, _, flat
  | .frozenSet elements, _, flat | .deque elements, _, flat =>
      have placed := Flat.placeAll elements flat
      ⟨trivial, placed.2.store placed.1⟩
  | .mapping entries, _, flat =>
      have placed := Flat.placeEntries entries flat
      ⟨trivial, placed.2.store placed.1⟩
  | .record _ fields, _, flat =>
      have placed := Flat.placeFields fields flat
      ⟨trivial, placed.2.store placed.1⟩
  | .copy index, heap, flat => by
      let written := Heap.writeCopy (heap.cells.size + 1) index ([], heap)
      have stored : written.1.Stored := stored_of_writeCopy
      have state : (([], heap) : Copies × Heap).2.Flat := flat
      have grown : written.2.2.Flat := state.writeCopy
      exact ⟨stored, grown⟩
  | .null, _, flat | .bool _, _, flat | .int _, _, flat | .bigInteger _, _, flat
  | .float _, _, flat | .text _, _, flat | .bytes _, _, flat | .date _, _, flat
  | .mode _, _, flat | .pattern _, _, flat | .failure _, _, flat | .ref _, _, flat =>
      ⟨trivial, flat⟩

theorem Flat.placeAll : ∀ (values : List Value) {heap : Heap}, heap.Flat →
    (∀ part ∈ (heap.placeAll values).1, part.Stored) ∧ (heap.placeAll values).2.Flat
  | [], _, flat => ⟨nofun, flat⟩
  | value :: rest, _, flat =>
      have first := Flat.place value flat
      have others := Flat.placeAll rest first.2
      ⟨List.forall_mem_cons.mpr ⟨first.1, others.1⟩, others.2⟩

theorem Flat.placeEntries : ∀ (entries : List (Value × Value)) {heap : Heap}, heap.Flat →
    (∀ part ∈ Value.interleave (heap.placeEntries entries).1, part.Stored) ∧
      (heap.placeEntries entries).2.Flat
  | [], _, flat => ⟨nofun, flat⟩
  | (key, value) :: rest, _, flat =>
      have first := Flat.place key flat
      have second := Flat.place value first.2
      have others := Flat.placeEntries rest second.2
      ⟨List.forall_mem_cons.mpr ⟨first.1, List.forall_mem_cons.mpr ⟨second.1, others.1⟩⟩, others.2⟩

theorem Flat.placeFields : ∀ (fields : List (String × Value)) {heap : Heap}, heap.Flat →
    (∀ part ∈ (heap.placeFields fields).1.map (·.2), part.Stored) ∧
      (heap.placeFields fields).2.Flat
  | [], _, flat => ⟨nofun, flat⟩
  | (_, value) :: rest, _, flat =>
      have first := Flat.place value flat
      have others := Flat.placeFields rest first.2
      ⟨List.forall_mem_cons.mpr ⟨first.1, others.1⟩, others.2⟩

end

end Flatness

section Traversals

/-- What is followed is some of the parts of what is come to, of a copy the copies of these. -/
structure Follows (inside : Value → List Value) : Prop where
  parts : ∀ {shape part}, part ∈ inside shape → part ∈ shape.parts
  copied : ∀ shape, inside shape.copied = (inside shape).map Value.copied

/-- Following what is inside one cell leads to the other. -/
def Leads (heap : Heap) (inside : Value → List Value) (outer inner : Nat) : Prop :=
  .ref inner ∈ inside (heap.cell outer)

/-- No cell is come to from itself. -/
def Straight (heap : Heap) (inside : Value → List Value) : Prop :=
  ∀ index, ¬ Relation.TransGen (heap.Leads inside) index index

/-- The heap as the traversal sees it: of every cell, what it follows. -/
def followed (heap : Heap) (inside : Value → List Value) : Heap :=
  ⟨heap.cells.map fun shape => .list (inside shape)⟩

theorem total_map {α β : Type} {measure : β → Nat} {change : α → β} {items : List α} :
    total measure (items.map change) = total (fun item => measure (change item)) items := by
  simp only [total, List.foldl_map]

theorem depth_pos : 0 < value.depth := by
  cases value <;> simp [Value.depth]

theorem depthOfAll_le {bound : Nat} (each : ∀ part ∈ values, part.depth ≤ bound) :
    Value.depthOfAll values ≤ bound := by
  induction values with
  | nil => exact Nat.zero_le bound
  | cons first rest ih =>
      simp only [List.forall_mem_cons] at each
      exact Nat.max_le.mpr ⟨each.1, ih each.2⟩

theorem Follows.depth_le (follows : Follows inside) :
    (Value.list (inside shape)).depth ≤ shape.depth := by
  have shallow : Value.depthOfAll (inside shape) ≤ shape.depth - 1 :=
    depthOfAll_le fun part member => by
      have := Value.depth_lt_of_part (follows.parts member)
      omega
  have : 0 < shape.depth := depth_pos
  simp only [Value.depth]
  omega

theorem Follows.depth_followed_le (follows : Follows inside) :
    (heap.followed inside).depth ≤ heap.depth := by
  rw [depth_eq_total, depth_eq_total, followed, Array.toList_map, total_map]
  exact total_le fun _ _ => follows.depth_le

theorem Follows.parts_cell (follows : Follows inside) :
    ((heap.followed inside).cell index).parts = inside (heap.cell index) := by
  by_cases known : index < heap.cells.size
  · simp [followed, cell, known, Value.parts]
  · have nothing : inside .null = [] :=
      List.eq_nil_iff_forall_not_mem.mpr fun part member => by cases follows.parts member
    simp [followed, cell, known, Value.parts, nothing]

theorem Follows.mem_parts (follows : Follows inside) (member : part ∈ inside (heap.look value)) :
    part ∈ ((heap.followed inside).look value).parts := by
  cases value with
  | ref index => rwa [look_ref, follows.parts_cell]
  | copy index => rwa [look_copy, Value.parts_copied, follows.parts_cell, ← follows.copied]
  | _ => exact follows.parts member

theorem Follows.within (follows : Follows inside)
    (within : (heap.followed inside).Within (levels + 1) value)
    (member : part ∈ inside (heap.look value)) : (heap.followed inside).Within levels part :=
  within part (follows.mem_parts member)

/-- A stored value refers to a cell or is made of nothing. -/
theorem eq_ref_or_bare (stored : value.Stored) :
    (∃ index, value = .ref index) ∨ ∀ heap : Heap, (heap.look value).parts = [] := by
  cases value with
  | ref index => exact .inl ⟨index, rfl⟩
  | list | tuple | set | frozenSet | deque | mapping | record | copy =>
      exact absurd stored not_false
  | _ => exact .inr fun _ => rfl

/-- Following what is inside a value leads to a cell. -/
inductive LeadsTo (heap : Heap) (inside : Value → List Value) : Value → Nat → Prop
  | ref {cell : Nat} : LeadsTo heap inside (.ref cell) cell
  | copy {cell : Nat} : LeadsTo heap inside (.copy cell) cell
  | within {outer inner : Value} {cell : Nat} : inner ∈ inside (heap.look outer) →
      LeadsTo heap inside inner cell → LeadsTo heap inside outer cell

/-- No cell that is come to from the value is come to from itself. -/
def StraightFrom (heap : Heap) (inside : Value → List Value) (value : Value) : Prop :=
  ∀ index, heap.LeadsTo inside value index → ¬ Relation.TransGen (heap.Leads inside) index index

theorem Straight.from_value (straight : heap.Straight inside) : heap.StraightFrom inside value :=
  fun index _ => straight index

theorem LeadsTo.leads {inner : Nat} (comes : heap.LeadsTo inside value index)
    (follows : Follows inside) (leads : heap.Leads inside index inner) :
    heap.LeadsTo inside value inner := by
  induction comes with
  | ref => exact .within leads .ref
  | copy =>
      refine .within ?_ .copy
      rw [look_copy, follows.copied]
      exact List.mem_map_of_mem leads
  | within member _ ih => exact .within member (ih leads)

/-- The cells are finitely many, so the ways out of each that is come to end where none of them is
come to from itself. -/
theorem StraightFrom.wellFounded (straight : heap.StraightFrom inside value) :
    WellFounded fun inner outer : Fin heap.cells.size =>
      heap.LeadsTo inside value outer ∧ Relation.TransGen (heap.Leads inside) outer inner := by
  let below (inner outer : Fin heap.cells.size) : Prop :=
    heap.LeadsTo inside value outer ∧ Relation.TransGen (heap.Leads inside) outer inner
  have : Std.Irrefl below := ⟨fun index circle => straight index circle.1 circle.2⟩
  have : IsTrans (Fin heap.cells.size) below :=
    ⟨fun _ _ _ one other => ⟨other.1, other.2.trans one.2⟩⟩
  exact Finite.wellFounded_of_trans_of_irrefl below

theorem StraightFrom.finite_ref (straight : heap.StraightFrom inside value) (flat : heap.Flat)
    (follows : Follows inside) (comes : heap.LeadsTo inside value index) :
    (heap.followed inside).Finite (.ref index) := by
  have unknown (index : Nat) (beyond : ¬ index < heap.cells.size) :
      (heap.followed inside).Finite (.ref index) := by
    refine ⟨1, within_of_no_parts ?_⟩
    simp [followed, cell, beyond, Value.parts]
  have known (index : Fin heap.cells.size) (comes : heap.LeadsTo inside value index) :
      (heap.followed inside).Finite (.ref index) := by
    induction index using straight.wellFounded.induction with
    | h outer ih =>
        refine finite_of_parts fun part member => ?_
        rw [look_ref, follows.parts_cell] at member
        rcases eq_ref_or_bare (flat outer part (follows.parts member)) with ⟨inner, rfl⟩ | bare
        · by_cases within : inner < heap.cells.size
          · exact ih ⟨inner, within⟩ ⟨comes, .single member⟩ (comes.leads follows member)
          · exact unknown inner within
        · exact ⟨1, within_of_no_parts (bare _)⟩
  by_cases within : index < heap.cells.size
  · exact known ⟨index, within⟩ comes
  · exact unknown index within

/-- How deep a traversal goes, at most. -/
def FollowedWithin (heap : Heap) (inside : Value → List Value) : Nat → Value → Prop
  | 0, _ => False
  | levels + 1, value => ∀ part ∈ inside (heap.look value), FollowedWithin heap inside levels part

theorem FollowedWithin.mono {more : Nat} (within : heap.FollowedWithin inside levels value)
    (enough : levels ≤ more) : heap.FollowedWithin inside more value := by
  induction levels generalizing more value with
  | zero => exact within.elim
  | succ levels ih =>
      obtain ⟨more, rfl⟩ : ∃ below, more = below + 1 := ⟨more - 1, by omega⟩
      exact fun part member => ih (within part member) (by omega)

theorem Follows.followedWithin (follows : Follows inside)
    (within : (heap.followed inside).Within levels value) :
    heap.FollowedWithin inside levels value := by
  induction levels generalizing value with
  | zero => exact within.elim
  | succ levels ih => exact fun part member => ih (follows.within within member)

/-- How deep a traversal goes from a value from which it follows no circle. -/
theorem StraightFrom.within (straight : heap.StraightFrom inside value) (flat : heap.Flat)
    (follows : Follows inside) : heap.FollowedWithin inside (heap.depth + value.depth) value := by
  have referring {index : Nat} (finite : (heap.followed inside).Finite (.ref index)) :
      (heap.followed inside).Within (heap.depth + 1) (.ref index) :=
    finite.bounded.mono (Nat.add_le_add_right follows.depth_followed_le 1)
  -- What stands in place is a tree over references, so the induction is on how deep it is nested.
  induction deep : value.depth using Nat.strong_induction_on generalizing value with
  | h depth ih =>
      subst deep
      have inPlace : ∀ part ∈ inside (heap.look value), part.depth < value.depth →
          heap.FollowedWithin inside (heap.depth + value.depth - 1) part := by
        intro part member shallow
        refine (ih part.depth shallow (fun index comes => ?_) rfl).mono (by omega)
        exact straight index (.within member comes)
      have standing (shape : heap.look value = value) :
          heap.FollowedWithin inside (heap.depth + value.depth) value := by
        have positive : 0 < value.depth := depth_pos
        rw [show heap.depth + value.depth = heap.depth + value.depth - 1 + 1 by omega]
        intro part member
        exact inPlace part member
          (Value.depth_lt_of_part (follows.parts (shape ▸ member)))
      cases value with
      | ref index =>
          exact follows.followedWithin (referring (straight.finite_ref flat follows .ref))
      | copy index =>
          exact follows.followedWithin
            (within_copied.mpr (referring (straight.finite_ref flat follows .copy)))
      | _ => exact standing rfl

theorem Straight.finite (straight : heap.Straight inside) (flat : heap.Flat)
    (follows : Follows inside) : (heap.followed inside).Finite value := by
  -- What stands in place is a tree over references, so the induction is on how deep it is nested.
  induction deep : value.depth using Nat.strong_induction_on generalizing value with
  | h depth ih =>
      have inPlace (shape : (heap.followed inside).look value = value) :
          (heap.followed inside).Finite value := by
        refine finite_of_parts fun part member => ?_
        rw [shape] at member
        exact ih part.depth (deep ▸ Value.depth_lt_of_part member) rfl
      cases value with
      | ref index =>
          have found : heap.LeadsTo inside (.ref index) index := .ref
          exact straight.from_value.finite_ref flat follows found
      | copy index =>
          have found : heap.LeadsTo inside (.copy index) index := .copy
          obtain ⟨levels, within⟩ := straight.from_value.finite_ref flat follows found
          exact ⟨levels, within_copied.mpr within⟩
      | _ => exact inPlace rfl

/-- How deep a traversal goes that follows no circle. -/
theorem Straight.within (straight : heap.Straight inside) (flat : heap.Flat)
    (follows : Follows inside) :
    (heap.followed inside).Within (heap.depth + value.depth) value :=
  (straight.finite flat follows).bounded.mono
    (Nat.add_le_add_right follows.depth_followed_le value.depth)

end Traversals

end Heap

end Exemplar
