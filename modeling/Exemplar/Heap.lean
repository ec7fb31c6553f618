import Exemplar.Value

/-!
Objects with identity. A cell holds one compound value whose parts are plain values or references,
so two references to one cell share what is stored there, and cells may form cycles.
-/

namespace Exemplar

structure Heap where
  cells : Array Value
deriving Inhabited

/-- What tells one object from another: a cell, or the copy that a cell will be written out to. -/
inductive Address where
  | stored (index : Nat)
  | copied (index : Nat)
deriving DecidableEq

def Value.address? : Value → Option Address
  | .ref index => some (.stored index)
  | .copy index => some (.copied index)
  | _ => none

/-- Both are references to one object. -/
def Value.sameObject (left right : Value) : Bool :=
  match left.address?, right.address? with
  | some first, some second => first == second
  | _, _ => false

namespace Heap

def empty : Heap := ⟨#[]⟩

def cell (heap : Heap) (index : Nat) : Value := heap.cells[index]?.getD .null

/-- The value itself, with the outermost reference followed. -/
def look (heap : Heap) : Value → Value
  | .ref index => heap.cell index
  | .copy index => (heap.cell index).copied
  | value => value

/-- The depths of all cells together. -/
def depth (heap : Heap) : Nat := heap.cells.foldl (fun total value => total + value.depth) 0

/-- No path from the value that meets no object twice has more steps than this. -/
def reach (heap : Heap) (value : Value) : Nat := heap.depth + value.depth + 1

def store (heap : Heap) (value : Value) : Value × Heap :=
  (.ref heap.cells.size, ⟨heap.cells.push value⟩)

def write (heap : Heap) (index : Nat) (value : Value) : Heap :=
  ⟨heap.cells.setIfInBounds index value⟩

variable {heap : Heap} {index other : Nat} {value : Value}

@[simp] theorem look_ref : heap.look (.ref index) = heap.cell index := rfl

@[simp] theorem look_copy : heap.look (.copy index) = (heap.cell index).copied := rfl

@[simp] theorem store_fst : (heap.store value).1 = .ref heap.cells.size := rfl

@[simp] theorem cell_store_self : (heap.store value).2.cell heap.cells.size = value := by
  simp [store, cell]

theorem cell_store_of_lt (old : index < heap.cells.size) :
    (heap.store value).2.cell index = heap.cell index := by
  simp [store, cell, Array.getElem?_push, Nat.ne_of_lt old]

theorem cell_write_self (known : index < heap.cells.size) :
    (heap.write index value).cell index = value := by
  simp [write, cell, known]

theorem cell_write_of_ne (different : other ≠ index) :
    (heap.write index value).cell other = heap.cell other := by
  simp [write, cell, different.symm]

/-- The cells that have been written out for a copy: the old index and the new one. -/
abbrev Copies := List (Nat × Nat)

def copyOf? (copies : Copies) (index : Nat) : Option Nat :=
  (copies.find? fun entry => entry.1 == index).map (·.2)

/-- Runs a step over values from left to right. -/
def threadAll {State : Type} (step : Value → State → Value × State) :
    List Value → State → List Value × State
  | [], state => ([], state)
  | value :: rest, state =>
      let (first, state) := step value state
      let (others, state) := threadAll step rest state
      (first :: others, state)

/-- Writes out a fresh copy of a cell and of what it refers to; each cell is copied once, so the
copy shares and cycles as what it is made from does. The fuel bounds the number of cells on a
path. -/
def writeCopy : Nat → Nat → Copies × Heap → Value × Copies × Heap
  | 0, _, state => (.null, state)
  | fuel + 1, index, (copies, heap) =>
      match copyOf? copies index with
      | some copy => (.ref copy, copies, heap)
      | none =>
          let shape := heap.cell index
          let (reference, reserved) := heap.store .null
          let part (value : Value) (state : Copies × Heap) : Value × Copies × Heap :=
            match value with
            | .ref inner => writeCopy fuel inner state
            | value => (value, state)
          let (parts, copies, written) :=
            threadAll part shape.parts ((index, heap.cells.size) :: copies, reserved)
          (reference, copies, written.write heap.cells.size (shape.withParts parts))

mutual

/-- Gives every compound part of a value a cell of its own, and writes out copies. -/
def place : Value → Heap → Value × Heap
  | .list elements, heap =>
      let (elements, heap) := placeAll elements heap; heap.store (.list elements)
  | .tuple elements, heap =>
      let (elements, heap) := placeAll elements heap; heap.store (.tuple elements)
  | .set elements, heap =>
      let (elements, heap) := placeAll elements heap; heap.store (.set elements)
  | .frozenSet elements, heap =>
      let (elements, heap) := placeAll elements heap; heap.store (.frozenSet elements)
  | .deque elements, heap =>
      let (elements, heap) := placeAll elements heap; heap.store (.deque elements)
  | .mapping entries, heap =>
      let (entries, heap) := placeEntries entries heap; heap.store (.mapping entries)
  | .record recordClass fields, heap =>
      let (fields, heap) := placeFields fields heap; heap.store (.record recordClass fields)
  | .copy index, heap =>
      let (value, _, heap) := writeCopy (heap.cells.size + 1) index ([], heap)
      (value, heap)
  | value, heap => (value, heap)

def placeAll : List Value → Heap → List Value × Heap
  | [], heap => ([], heap)
  | value :: rest, heap =>
      let (first, heap) := place value heap
      let (others, heap) := placeAll rest heap
      (first :: others, heap)

def placeEntries : List (Value × Value) → Heap → List (Value × Value) × Heap
  | [], heap => ([], heap)
  | (key, value) :: rest, heap =>
      let (key, heap) := place key heap
      let (value, heap) := place value heap
      let (others, heap) := placeEntries rest heap
      ((key, value) :: others, heap)

def placeFields : List (String × Value) → Heap → List (String × Value) × Heap
  | [], heap => ([], heap)
  | (name, value) :: rest, heap =>
      let (value, heap) := place value heap
      let (others, heap) := placeFields rest heap
      ((name, value) :: others, heap)

end

end Heap

end Exemplar
