/-!
Regular expressions as trees. Options that hold at a place are kept in the node they govern.
-/

namespace Exemplar.Regex

structure Options where
  ignoreCase : Bool := false
  multiline : Bool := false
  dotAll : Bool := false
  verbose : Bool := false
  ascii : Bool := false
deriving DecidableEq, Inhabited

namespace Options

/-- The options of either. -/
def union (left right : Options) : Options where
  ignoreCase := left.ignoreCase || right.ignoreCase
  multiline := left.multiline || right.multiline
  dotAll := left.dotAll || right.dotAll
  verbose := left.verbose || right.verbose
  ascii := left.ascii || right.ascii

/-- The options of the first that the second lacks. -/
def without (left right : Options) : Options where
  ignoreCase := left.ignoreCase && !right.ignoreCase
  multiline := left.multiline && !right.multiline
  dotAll := left.dotAll && !right.dotAll
  verbose := left.verbose && !right.verbose
  ascii := left.ascii && !right.ascii

end Options

inductive Category where
  | digit
  | blank
  | word
deriving DecidableEq

inductive SetItem where
  | member (character : Char)
  | range (first last : Nat)
  | kind (category : Category) (negated : Bool)
deriving DecidableEq

inductive Place where
  | textStart
  | lineStart
  | textEnd
  | finalLineEnd
  | lineEnd
  | wordEdge
  | noWordEdge
deriving DecidableEq

inductive Greed where
  | greedy
  | lazy
  | possessive
deriving DecidableEq

inductive Node where
  | empty
  | literal (options : Options) (character : Char)
  | any (options : Options)
  | set (options : Options) (negated : Bool) (items : List SetItem)
  | anchor (options : Options) (place : Place)
  | capture (index : Nat) (body : Node)
  | reference (options : Options) (index : Nat)
  | sequence (first second : Node)
  | either (first second : Node)
  | many (greed : Greed) (least : Nat) (most : Option Nat) (body : Node)
  | ahead (negated : Bool) (body : Node)
  | behind (negated : Bool) (width : Nat) (body : Node)
  | atomic (body : Node)
  | ifCaptured (index : Nat) (matched unmatched : Node)
deriving DecidableEq, Inhabited

end Exemplar.Regex
