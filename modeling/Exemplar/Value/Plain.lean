import Exemplar.Fault
import Exemplar.Heap

/-!
Records turned into plain mappings and lists. A record inside itself has no plain form; a record
that is merely met twice has one at each place.
-/

namespace Exemplar

namespace Heap

def plainAll (plain : Value → Except Fault Value) : List Value → Except Fault (List Value)
  | [] => .ok []
  | value :: rest =>
      match plain value with
      | .error fault => .error fault
      | .ok first =>
          match plainAll plain rest with
          | .error fault => .error fault
          | .ok others => .ok (first :: others)

/-- The plain form, with the records that the value stands in. -/
def plainTo (heap : Heap) : Nat → List Address → Value → Except Fault Value
  | 0, _, _ => .error .tooDeep
  | fuel + 1, around, value =>
      match heap.look value with
      | .record recordClass fields =>
          if value.address?.any (around.contains ·) then .error (.cyclicRecord recordClass.name)
          else
            let inside := match value.address? with
              | some address => address :: around
              | none => around
            (plainAll (heap.plainTo fuel inside) (fields.map (·.2))).map fun values =>
              .mapping ((fields.map fun field => .text field.1).zip values)
      | .list elements | .tuple elements | .set elements | .frozenSet elements =>
          (plainAll (heap.plainTo fuel around) elements).map .list
      | .mapping entries =>
          (plainAll (heap.plainTo fuel around) (entries.map (·.2))).map fun values =>
            .mapping ((entries.map (·.1)).zip values)
      | _ => .ok value

/-- No path from the value that enters no record twice has more steps than this. Between two records
it meets nothing twice, and at most the cells and their copies are records. -/
def circuit (heap : Heap) (value : Value) : Nat := (2 * heap.cells.size + 1) * heap.reach value

def plain (heap : Heap) (value : Value) : Except Fault Value :=
  heap.plainTo (heap.circuit value) [] value

end Heap

end Exemplar
