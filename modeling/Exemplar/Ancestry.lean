import Exemplar.Fault

/-!
The linear order of a schema and all that it extends: it keeps the order of every base's own line
and the order in which the bases are named. Where no such order exists there is none.
-/

namespace Exemplar

namespace Ancestry

/-- The first head of a line that stands in no line's tail. -/
def nextHead? (lines : List (List Nat)) : List (List Nat) → Option Nat
  | [] => none
  | [] :: rest => nextHead? lines rest
  | (head :: _) :: rest =>
      if lines.any fun line => line.tail.contains head then nextHead? lines rest else some head

def dropHead (head : Nat) (line : List Nat) : List Nat :=
  if line.head? = some head then line.tail else line

/-- Merges lines; what cannot be merged is answered instead. -/
def merge : Nat → List (List Nat) → List Nat → Except (List Nat) (List Nat)
  | 0, lines, _ => .error (lines.filterMap List.head?)
  | fuel + 1, lines, merged =>
      if lines.all List.isEmpty then .ok merged.reverse
      else
        match nextHead? lines lines with
        | none => .error (lines.filterMap List.head?)
        | some head => merge fuel (lines.map (dropHead head)) (head :: merged)

def firstRepeated? : List Nat → Option Nat
  | [] => none
  | base :: rest => if rest.contains base then some base else firstRepeated? rest

/-- The order of what a schema with these bases extends, given the order of each. -/
def ofBases (nameOf : Nat → String) (ancestryOf : Nat → List Nat) (bases : List Nat) :
    Except Fault (List Nat) :=
  match firstRepeated? bases with
  | some base => .error (.duplicateBase (nameOf base))
  | none =>
      let lines := bases.map ancestryOf ++ [bases]
      match merge (lines.flatten.length + 1) lines [] with
      | .ok order => .ok order
      | .error heads => .error (.inconsistentBases (heads.eraseDups.map nameOf))

end Ancestry

end Exemplar
