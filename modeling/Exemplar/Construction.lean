import Exemplar.Validation

/-!
Records built directly: from data that reads as entries, with keyword fields laid over them.
-/

namespace Exemplar

namespace Heap

/-- Stores the entry of an element that must be a pair; its place is named in what goes wrong. -/
def addPair (heap : Heap) (entries : List (Value × Value)) (position : Nat) (element : Value) :
    Except Fault (List (Value × Value)) :=
  match heap.elements? element with
  | none => .error (.notPair position)
  | some [key, value] =>
      match heap.hash? key with
      | .ok _ => .ok (heap.setEntry key value entries)
      | .error fault => .error fault
  | some parts => .error (.pairLength position parts.length)

def addPairs (heap : Heap) :
    List (Value × Value) → Nat → List Value → Except Fault (List (Value × Value))
  | entries, _, [] => .ok entries
  | entries, position, element :: rest =>
      match heap.addPair entries position element with
      | .ok entries => heap.addPairs entries (position + 1) rest
      | .error fault => .error fault

/-- Data read as entries: a mapping has its own, anything else is gone through pair by pair, and
what counts as false has none. -/
def entriesOf (heap : Heap) (data : Value) : Except Fault (List (Value × Value)) :=
  if heap.isTruthy data then
    match heap.look data with
    | .mapping entries => .ok entries
    | _ =>
        match heap.iterate data with
        | .ok elements => heap.addPairs [] 0 elements
        | .error fault => .error fault
  else .ok []

end Heap

namespace World

/-- A record of a schema from data and keyword fields; the keywords have the last word. -/
def construct (world : World) (schema : Schema) (data : Value) (keywords : List (String × Value)) :
    Run Value := do
  let entries ← world.heap.entriesOf data
  let merged := keywords.foldl
    (fun entries (name, value) => world.heap.setEntry (.text name) value entries) entries
  world.validate schema (.mapping merged) none

end World

end Exemplar
