/-!
Sets of characters as closed ranges of code points, ascending and apart.
-/

namespace Exemplar.Text

/-- Looks a code point up in ascending ranges; the search ends at the first range beyond it. -/
def inRanges : List (Nat × Nat) → Nat → Bool
  | [], _ => false
  | (first, last) :: rest, code =>
      if code < first then false else if code ≤ last then true else inRanges rest code

end Exemplar.Text
