import Exemplar.Validation

/-!
Frames: columns of typed cells, read row by row as objects.
-/

namespace Exemplar

inductive CellType where
  | plain
  | float
  | list (element : CellType)
  | struct (fields : List (String × CellType))
deriving Inhabited

structure Column where
  name : String
  type : CellType
  cells : List Value

namespace CellType

def cellUnder? (name : String) (heap : Heap) (value : Value) : Option Value :=
  match heap.look value with
  | .mapping entries => Heap.named? name entries
  | _ => none

mutual

/-- The value of a cell: integers in columns of floats become floats, and what a struct lacks is
null. -/
def convert (heap : Heap) : CellType → Value → Value
  | .plain, value => value
  | .float, value =>
      match heap.look value with
      | .int whole => .float (.ofInt whole)
      | _ => value
  | .list element, value =>
      match heap.look value with
      | .list elements => .list (elements.map fun inner => element.convert heap inner)
      | _ => value
  | .struct fields, value =>
      match heap.look value with
      | .mapping _ => .mapping (convertFields heap fields value)
      | _ => value

def convertFields (heap : Heap) : List (String × CellType) → Value → List (Value × Value)
  | [], _ => []
  | (name, type) :: rest, value =>
      let inner := (cellUnder? name heap value).map fun inner => type.convert heap inner
      (.text name, inner.getD .null) :: convertFields heap rest value

end

end CellType

namespace Frame

/-- The number of rows: that of the cells of any column. -/
def height : List Column → Nat
  | [] => 0
  | column :: _ => column.cells.length

def row (heap : Heap) (columns : List Column) (index : Nat) : Value :=
  .mapping (columns.map fun column =>
    (.text column.name, column.type.convert heap (column.cells[index]?.getD .null)))

def rows (heap : Heap) (columns : List Column) : List Value :=
  (List.range (height columns)).map (row heap columns)

end Frame

namespace World

/-- Validates the rows of a frame like the elements of an array. -/
def validateFrame (world : World) (schema : Schema) (columns : List Column)
    (named : Option ConfigurationId) : Run Value := do
  let records ← world.validateList schema (.list (Frame.rows world.heap columns)) named
  let kept := (world.heap.length? records).getD 0
  Run.debug s!"Validated {kept} of {Frame.height columns} rows as '{schema.name}'"
  return records

end World

end Exemplar
