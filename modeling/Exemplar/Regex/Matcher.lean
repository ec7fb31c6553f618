import Exemplar.Regex.Alike
import Exemplar.Regex.Syntax
import Exemplar.Text.Blank
import Exemplar.Text.DecimalDigit
import Exemplar.Text.WordCharacter

/-!
Matching by backtracking. A node is given what is to match after it and answers the first way to
match both; a repeated node takes part as often as it still moves forward.
-/

namespace Exemplar.Regex

/-- A place in the text and the groups captured on the way there, the latest first. -/
structure Progress where
  position : Nat
  captures : List (Nat × Nat × Nat)
deriving Inhabited

def Progress.capture? (progress : Progress) (index : Nat) : Option (Nat × Nat) :=
  (progress.captures.find? fun capture => capture.1 == index).map (·.2)

def Category.holds (options : Options) : Category → Char → Bool
  | .digit, character => if options.ascii then character.isDigit else Text.isDigit character
  | .blank, character =>
      if options.ascii then character.toNat < 128 && Text.isBlank character &&
        !(0x1C ≤ character.toNat && character.toNat ≤ 0x1F)
      else Text.isBlank character
  | .word, character =>
      if options.ascii then character.isAlphanum || character == '_'
      else Text.isWordCharacter character

def SetItem.holds (options : Options) (character : Char) : SetItem → Bool
  | .member other => other == character
  | .range first last => first ≤ character.toNat && character.toNat ≤ last
  | .kind category negated => category.holds options character != negated

/-- The characters that count as one with a character. -/
def standsFor (options : Options) (character : Char) : List Char :=
  if !options.ignoreCase then [character]
  else if options.ascii then [character, character.toLower, character.toUpper]
  else variants character

def setHolds (options : Options) (items : List SetItem) (character : Char) : Bool :=
  (standsFor options character).any fun variant => items.any (·.holds options variant)

def sameCharacter (options : Options) (left right : Char) : Bool :=
  left == right || (options.ignoreCase &&
    if options.ascii then left.toLower == right.toLower else alike left right)

def wordAt (options : Options) (text : Array Char) (position : Nat) : Bool :=
  match text[position]? with
  | some character => Category.word.holds options character
  | none => false

/-- The word lies on one side only. -/
def wordEdgeAt (options : Options) (text : Array Char) (position : Nat) : Bool :=
  let before := match position with
    | 0 => false
    | previous + 1 => wordAt options text previous
  before != wordAt options text position

/-- An empty text has no place of any kind but its start and end. -/
def Place.holds (options : Options) (text : Array Char) (position : Nat) : Place → Bool
  | .textStart => position == 0
  | .lineStart => position == 0 || text[position - 1]? == some '\n'
  | .textEnd => position == text.size
  | .finalLineEnd =>
      position == text.size || (position + 1 == text.size && text[position]? == some '\n')
  | .lineEnd => position == text.size || text[position]? == some '\n'
  | .wordEdge => wordEdgeAt options text position
  | .noWordEdge => text.size != 0 && !wordEdgeAt options text position

/-- The captured piece stands again at the position. -/
def repeatsAt (options : Options) (text : Array Char) : Nat → Nat → Nat → Bool
  | 0, _, _ => true
  | length + 1, source, position =>
      match text[source]?, text[position]? with
      | some left, some right =>
          sameCharacter options left right &&
            repeatsAt options text length (source + 1) (position + 1)
      | _, _ => false

abbrev Continuation := Progress → Option Progress

/-- Repeats a body between `least` and `most` times; past `least` a round that does not move ends
the repetition. -/
def iterate (body : Continuation → Progress → Option Progress) (greed : Greed) (least : Nat)
    (most : Option Nat) (next : Continuation) : Nat → Nat → Progress → Option Progress
  | 0, _, _ => none
  | fuel + 1, count, progress =>
      if count < least then
        body (fun after => iterate body greed least most next fuel (count + 1) after) progress
      else
        let more : Unit → Option Progress := fun _ =>
          if most.any (· ≤ count) then none
          else body (fun after =>
            if after.position = progress.position then next after
            else iterate body greed least most next fuel (count + 1) after) progress
        match greed with
        | .lazy => match next progress with
            | some done => some done
            | none => more ()
        | _ => match more () with
            | some done => some done
            | none => next progress

def Node.matchWith (text : Array Char) : Node → Continuation → Progress → Option Progress
  | .empty, next, progress => next progress
  | .literal options expected, next, progress =>
      match text[progress.position]? with
      | some character =>
          if sameCharacter options expected character then
            next { progress with position := progress.position + 1 }
          else none
      | none => none
  | .any options, next, progress =>
      match text[progress.position]? with
      | some character =>
          if options.dotAll || character != '\n' then
            next { progress with position := progress.position + 1 }
          else none
      | none => none
  | .set options negated items, next, progress =>
      match text[progress.position]? with
      | some character =>
          if setHolds options items character != negated then
            next { progress with position := progress.position + 1 }
          else none
      | none => none
  | .anchor options place, next, progress =>
      if place.holds options text progress.position then next progress else none
  | .capture index body, next, progress =>
      body.matchWith text (fun after =>
        let capture := (index, progress.position, after.position)
        next { after with captures := capture :: after.captures })
        progress
  | .reference options index, next, progress =>
      match progress.capture? index with
      | some (first, last) =>
          if repeatsAt options text (last - first) first progress.position then
            next { progress with position := progress.position + (last - first) }
          else none
      | none => none
  | .sequence first second, next, progress =>
      first.matchWith text (second.matchWith text next) progress
  | .either first second, next, progress =>
      match first.matchWith text next progress with
      | some done => some done
      | none => second.matchWith text next progress
  | .many greed least most body, next, progress =>
      let fuel := least + (text.size - progress.position) + 2
      match greed with
      | .possessive =>
          match iterate (body.matchWith text) .greedy least most some fuel 0 progress with
          | some after => next after
          | none => none
      | greed => iterate (body.matchWith text) greed least most next fuel 0 progress
  | .ahead negated body, next, progress =>
      match body.matchWith text some progress with
      | some after =>
          if negated then none else next { after with position := progress.position }
      | none => if negated then next progress else none
  | .behind negated width body, next, progress =>
      let found :=
        if width ≤ progress.position then
          body.matchWith text
            (fun after => if after.position = progress.position then some after else none)
            { progress with position := progress.position - width }
        else none
      match found with
      | some after => if negated then none else next after
      | none => if negated then next progress else none
  | .atomic body, next, progress =>
      match body.matchWith text some progress with
      | some after => next after
      | none => none
  | .ifCaptured index matched unmatched, next, progress =>
      if (progress.capture? index).isSome then matched.matchWith text next progress
      else unmatched.matchWith text next progress

/-- The first start, counted in `remaining` steps from the end, at which the expression matches. -/
def Node.searchFrom (node : Node) (text : Array Char) : Nat → Option Progress
  | 0 => node.matchWith text some ⟨text.size, []⟩
  | remaining + 1 =>
      match node.matchWith text some ⟨text.size - (remaining + 1), []⟩ with
      | some found => some found
      | none => node.searchFrom text remaining

/-- The expression matches somewhere in the text. -/
def Node.occursIn (node : Node) (text : String) : Bool :=
  let characters := text.toList.toArray
  (node.searchFrom characters characters.size).isSome

end Exemplar.Regex
