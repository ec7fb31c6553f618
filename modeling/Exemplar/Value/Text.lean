import Exemplar.Fault
import Exemplar.Number.Shortest
import Exemplar.Value.Kind

/-!
The two texts of a value: the literal form, and the display form, in which a text stands for itself.
They differ in the outermost value only. A value inside itself is shown as an ellipsis.
-/

namespace Exemplar

def numeral (value : Int) : Except Fault String :=
  match Number.numeral? value with
  | some text => .ok text
  | none => .error (.longNumeral none)

def padded (width value : Nat) : String :=
  let digits := toString value
  String.ofList (List.replicate (width - digits.length) '0') ++ digits

namespace Date

def display (date : Date) : String :=
  padded 4 date.year ++ "-" ++ padded 2 date.month ++ "-" ++ padded 2 date.day

def literal (date : Date) : String := s!"datetime.date({date.year}, {date.month}, {date.day})"

end Date

namespace Failure

def literal (fail : Failure) : String :=
  s!"Fail(path={Text.quoted fail.path}, code={Text.quoted fail.code}, " ++
    s!"message={Text.quoted fail.message})"

end Failure

namespace Heap

/-- The texts of several values, or the fault of the first that has none. -/
def textAll (text : Value → Except Fault String) : List Value → Except Fault (List String)
  | [] => .ok []
  | value :: rest =>
      match text value with
      | .error fault => .error fault
      | .ok first =>
          match textAll text rest with
          | .error fault => .error fault
          | .ok others => .ok (first :: others)

def bracketed (opening closing : String) : Except Fault (List String) → Except Fault String
  | .ok texts => .ok (opening ++ ", ".intercalate texts ++ closing)
  | .error fault => .error fault

def tupleText : Except Fault (List String) → Except Fault String
  | .ok [single] => .ok ("(" ++ single ++ ",)")
  | texts => bracketed "(" ")" texts

/-- Keys and values of the entries as texts, each pair joined by a colon. -/
def joinPairs : List String → List String
  | key :: value :: rest => (key ++ ": " ++ value) :: joinPairs rest
  | _ => []

def joinFields : List String → List String → List String
  | name :: names, value :: values => (name ++ "=" ++ value) :: joinFields names values
  | _, _ => []

def ellipsis : Value → String
  | .list _ | .deque _ => "[...]"
  | .tuple _ => "(...)"
  | .set _ => "set(...)"
  | .frozenSet _ => "frozenset(...)"
  | .mapping _ => "\x7b...\x7d"
  | _ => "..."

/-- The literal form, with the objects that the value stands in. -/
def literalTo (heap : Heap) : Nat → List Address → Value → Except Fault String
  | 0, _, _ => .error .tooDeep
  | fuel + 1, around, value =>
      let inside := match value.address? with
        | some address => address :: around
        | none => around
      let shape := heap.look value
      if value.address?.any (around.contains ·) then .ok (ellipsis shape)
      else
        let texts (values : List Value) : Except Fault (List String) :=
          textAll (heap.literalTo fuel inside) values
        match shape with
        | .null => .ok "None"
        | .bool true => .ok "True"
        | .bool false => .ok "False"
        | .int value => numeral value
        | .bigInteger value => bracketed "BigInt(" ")" ((numeral value).map ([·]))
        | .float value => .ok value.text
        | .text value => .ok (Text.quoted value)
        | .bytes value => .ok (Text.quotedBytes value)
        | .date value => .ok value.literal
        | .mode value => .ok value.literal
        | .pattern value => .ok value.literal
        | .failure value => .ok value.literal
        | .list elements => bracketed "[" "]" (texts elements)
        | .tuple elements => tupleText (texts elements)
        | .set [] => .ok "set()"
        | .set elements => bracketed "\x7b" "\x7d" (texts elements)
        | .frozenSet [] => .ok "frozenset()"
        | .frozenSet elements => bracketed "frozenset(\x7b" "\x7d)" (texts elements)
        | .deque elements => bracketed "deque([" "])" (texts elements)
        | .mapping entries =>
            bracketed "\x7b" "\x7d" ((texts (Value.interleave entries)).map joinPairs)
        | .record recordClass fields =>
            bracketed (recordClass.name ++ "(") ")"
              ((texts (fields.map (·.2))).map (joinFields (fields.map (·.1))))
        | .ref _ | .copy _ => .ok "..."

def literal (heap : Heap) (value : Value) : Except Fault String :=
  heap.literalTo (heap.reach value) [] value

def display (heap : Heap) (value : Value) : Except Fault String :=
  match heap.look value with
  | .text value => .ok value
  | .bigInteger value => numeral value
  | .date value => .ok value.display
  | .mode value => .ok value.display
  | .failure value => .ok value.display
  | _ => heap.literal value

end Heap

end Exemplar
