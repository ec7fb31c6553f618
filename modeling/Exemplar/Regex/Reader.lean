import Exemplar.Regex.Syntax
import Exemplar.Text.DecimalDigit
import Exemplar.Text.WordCharacter

/-!
Reading a regular expression. The reader keeps the groups it has opened and closed, so that
references to open, later or unknown groups are refused, and the widths of what it reads, so that
only pieces of one width may be looked for behind.
-/

namespace Exemplar.Regex

/-- The fewest and, if bounded, the most characters that a node matches. -/
structure Width where
  least : Nat
  most : Option Nat
deriving DecidableEq, Inhabited

namespace Width

def none : Width := ⟨0, some 0⟩
def one : Width := ⟨1, some 1⟩

def addMost : Option Nat → Option Nat → Option Nat
  | some left, some right => some (left + right)
  | _, _ => Option.none

def followedBy (first second : Width) : Width :=
  ⟨first.least + second.least, addMost first.most second.most⟩

def either (left right : Width) : Width :=
  ⟨min left.least right.least, match left.most, right.most with
    | some first, some second => some (max first second)
    | _, _ => Option.none⟩

def times (width : Width) (least : Nat) (most : Option Nat) : Width :=
  ⟨width.least * least, match width.most, most with
    | some size, some count => some (size * count)
    | some 0, Option.none => some 0
    | _, _ => Option.none⟩

end Width

/-- What a quantifier may not follow: a place, or another quantifier. -/
inductive Role where
  | place
  | repeated
  | plain
deriving DecidableEq

structure Piece where
  node : Node
  width : Width
  role : Role := .plain
deriving Inhabited

structure Reading where
  rest : List Char
  options : Options
  groups : Nat := 1
  names : List (String × Nat) := []
  widths : List (Nat × Width) := []
  behind : Option Nat := none
  conditions : List Nat := []

/-- A reader; it answers nothing where the text is no regular expression. -/
abbrev Read := StateT Reading Option

namespace Read

def refuse {α : Type} : Read α := fun _ => none

def next : Read (Option Char) := do
  match (← get).rest with
  | [] => return none
  | character :: rest =>
      modify fun reading => { reading with rest }
      return some character

def demand : Read Char := do
  match ← next with
  | some character => return character
  | none => refuse

def accept (expected : Char) : Read Bool := do
  match (← get).rest with
  | character :: rest =>
      if character = expected then
        modify fun reading => { reading with rest }
        return true
      else return false
  | [] => return false

/-- Up to `limit` characters of a class. -/
def upTo (member : Char → Bool) : Nat → Read (List Char)
  | 0 => return []
  | limit + 1 => do
      match (← get).rest with
      | character :: rest =>
          if member character then
            modify fun reading => { reading with rest }
            return character :: (← upTo member limit)
          else return []
      | [] => return []

def remaining : Read Nat := return (← get).rest.length

/-- The characters before a terminator, which must come. -/
def upToAfter (terminator : Char) : Read (List Char) := do
  let text := (← get).rest
  let before := text.takeWhile (· != terminator)
  match text.dropWhile (· != terminator) with
  | [] => refuse
  | _ :: rest =>
      if before.isEmpty then refuse
      else
        modify fun reading => { reading with rest }
        return before

end Read

open Read

def isOctal (character : Char) : Bool := '0' ≤ character && character ≤ '7'

def hexValue? (character : Char) : Option Nat :=
  if character.isDigit then some (character.toNat - 48)
  else if 'a' ≤ character ∧ character ≤ 'f' then some (character.toNat - 87)
  else if 'A' ≤ character ∧ character ≤ 'F' then some (character.toNat - 55)
  else none

def hexNumber (digits : List Char) : Nat :=
  digits.foldl (fun value digit => value * 16 + (hexValue? digit).getD 0) 0

def octalNumber (digits : List Char) : Nat :=
  digits.foldl (fun value digit => value * 8 + (digit.toNat - 48)) 0

def decimalNumber (digits : List Char) : Nat :=
  digits.foldl (fun value digit => value * 10 + (digit.toNat - 48)) 0

/-- A character written as a fixed number of hexadecimal digits. -/
def readHex (width : Nat) : Read Char := do
  let digits ← upTo (fun character => (hexValue? character).isSome) width
  if digits.length < width then refuse
  let code := hexNumber digits
  if code < 0x110000 then return Char.ofNat code else refuse

def controlEscape? : Char → Option Char
  | 'a' => some '\x07'
  | 'f' => some '\x0c'
  | 'n' => some '\n'
  | 'r' => some '\r'
  | 't' => some '\t'
  | 'v' => some '\x0b'
  | '\\' => some '\\'
  | _ => none

def categoryEscape? : Char → Option (Category × Bool)
  | 'd' => some (.digit, false)
  | 'D' => some (.digit, true)
  | 's' => some (.blank, false)
  | 'S' => some (.blank, true)
  | 'w' => some (.word, false)
  | 'W' => some (.word, true)
  | _ => none

def placeEscape? : Char → Option Place
  | 'A' => some .textStart
  | 'b' => some .wordEdge
  | 'B' => some .noWordEdge
  | 'Z' => some .textEnd
  | _ => none

/-- One escape inside a set, its backslash already read. -/
def readSetEscape : Read SetItem := do
  let character ← demand
  match controlEscape? character, categoryEscape? character with
  | some control, _ => return .member control
  | none, some (category, negated) => return .kind category negated
  | none, none =>
      if character = 'b' then return .member '\x08'
      else if character = 'x' then return .member (← readHex 2)
      else if character = 'u' then return .member (← readHex 4)
      else if character = 'U' then return .member (← readHex 8)
      else if isOctal character then
        let code := octalNumber (character :: (← upTo isOctal 2))
        if 0o377 < code then refuse else return .member (Char.ofNat code)
      else if character.isAlphanum then refuse
      else return .member character

def readSetItem (character : Char) : Read SetItem :=
  if character = '\\' then readSetEscape else return .member character

/-- The members of a set up to its closing bracket, which counts as a member in first place. -/
def readSetItems : Nat → List SetItem → Read (List SetItem)
  | 0, _ => refuse
  | fuel + 1, items => do
      let character ← demand
      if character = ']' ∧ items ≠ [] then return items.reverse
      let first ← readSetItem character
      if ← accept '-' then
        let following ← demand
        if following = ']' then return (.member '-' :: first :: items).reverse
        let last ← readSetItem following
        match first, last with
        | .member low, .member high =>
            if high.toNat < low.toNat then refuse
            else readSetItems fuel (.range low.toNat high.toNat :: items)
        | _, _ => refuse
      else readSetItems fuel (first :: items)

def closedWidth? (reading : Reading) (index : Nat) : Option Width :=
  (reading.widths.find? fun entry => entry.1 == index).map (·.2)

/-- A group may be referred to once it is closed; a piece that is looked for behind refers only to
groups from before it. -/
def checkGroup (index : Nat) : Read Width := do
  let reading ← get
  match closedWidth? reading index with
  | none => refuse
  | some width =>
      if reading.behind.any (· ≤ index) then refuse else return width

def referTo (index : Nat) : Read Piece := do
  let width ← checkGroup index
  return ⟨.reference (← get).options index, width, .plain⟩

def literal (character : Char) : Read Piece :=
  return ⟨.literal (← get).options character, .one, .plain⟩

/-- One escape outside a set, its backslash already read. -/
def readEscape : Read Piece := do
  let character ← demand
  let options := (← get).options
  match placeEscape? character, categoryEscape? character, controlEscape? character with
  | some place, _, _ => return ⟨.anchor options place, .none, .place⟩
  | _, some (category, negated), _ =>
      return ⟨.set options false [.kind category negated], .one, .plain⟩
  | _, _, some control => literal control
  | none, none, none =>
      if character = 'x' then literal (← readHex 2)
      else if character = 'u' then literal (← readHex 4)
      else if character = 'U' then literal (← readHex 8)
      else if character = '0' then literal (Char.ofNat (octalNumber (← upTo isOctal 2)))
      else if character.isDigit then
        let second ← upTo Char.isDigit 1
        let third ←
          if isOctal character && second.all isOctal && !second.isEmpty then upTo isOctal 1
          else pure []
        if third.isEmpty then referTo (decimalNumber (character :: second))
        else
          let code := octalNumber (character :: second ++ third)
          if 0o377 < code then refuse else literal (Char.ofNat code)
      else if character.isAlpha then refuse
      else literal character

def isGroupName (name : List Char) : Bool :=
  match name with
  | [] => false
  | first :: _ => name.all Text.isWordCharacter && !Text.isDigit first

def groupNamed (name : List Char) : Read Nat := do
  match (← get).names.find? fun entry => entry.1 == String.ofList name with
  | some entry => return entry.2
  | none => refuse

/-- One more option letter; the second answer says that the letter asks for characters of all
scripts. -/
def optionLetter? : Char → Option (Options × Bool)
  | 'i' => some ({ ignoreCase := true }, false)
  | 'm' => some ({ multiline := true }, false)
  | 's' => some ({ dotAll := true }, false)
  | 'x' => some ({ verbose := true }, false)
  | 'a' => some ({ ascii := true }, false)
  | 'u' => some ({}, true)
  | _ => none

/-- Option letters up to the first other character, which is answered too. -/
def readOptionLetters : Nat → Options → Bool → Char → Read (Options × Bool × Char)
  | 0, _, _, _ => refuse
  | fuel + 1, options, wide, character => do
      match optionLetter? character with
      | none => return (options, wide, character)
      | some (option, isWide) =>
          let joined := options.union option
          if joined.ascii && (wide || isWide) then refuse
          else readOptionLetters fuel joined (wide || isWide) (← demand)

/-- The bounds of a counted repetition, or nothing where the brace stands for itself. -/
def readBounds : Read (Option (Nat × Option Nat)) := do
  let reading ← get
  if reading.rest.head? = some '\x7d' then return none
  let low ← upTo Char.isDigit reading.rest.length
  let high ← if ← accept ',' then upTo Char.isDigit reading.rest.length else pure low
  if ← accept '\x7d' then
    let least := decimalNumber low
    let most := if high.isEmpty then none else some (decimalNumber high)
    if most.any (· < least) then refuse else return some (least, most)
  else
    set reading
    return none

def readGreed : Read Greed := do
  if ← accept '?' then return .lazy
  else if ← accept '+' then return .possessive
  else return .greedy

/-- Applies a quantifier to the last piece read. -/
def repeatLast (pieces : List Piece) (least : Nat) (most : Option Nat) : Read (List Piece) := do
  match pieces with
  | [] => refuse
  | piece :: before =>
      if piece.role ≠ .plain then refuse
      else
        let greed ← readGreed
        let width := piece.width.times least most
        return ⟨.many greed least most piece.node, width, .repeated⟩ :: before

/-- The pieces, the latest first, as one. -/
def joinPieces (pieces : List Piece) : Piece :=
  pieces.foldl (fun joined piece =>
    match joined.node with
    | .empty => ⟨piece.node, piece.width.followedBy joined.width, .plain⟩
    | node => ⟨.sequence piece.node node, piece.width.followedBy joined.width, .plain⟩)
    ⟨.empty, .none, .plain⟩

def closeGroup : Read Unit := do
  if ← accept ')' then return () else refuse

def openGroup (name : Option (List Char)) : Read Nat := do
  let reading ← get
  let index := reading.groups
  match name with
  | none => set { reading with groups := index + 1 }
  | some name =>
      let text := String.ofList name
      if reading.names.any fun entry => entry.1 == text then refuse
      else set { reading with groups := index + 1, names := (text, index) :: reading.names }
  return index

/-- A group that captures, read by `body`. -/
def readCapture (body : Read Piece) (name : Option (List Char)) : Read Piece := do
  let index ← openGroup name
  let piece ← body
  closeGroup
  modify fun reading => { reading with widths := (index, piece.width) :: reading.widths }
  return ⟨.capture index piece.node, piece.width, .plain⟩

def readPlainGroup (body : Read Piece) : Read Piece := do
  let piece ← body
  closeGroup
  return ⟨piece.node, piece.width, .plain⟩

def readAhead (body : Read Piece) (negated : Bool) : Read Piece := do
  let piece ← body
  closeGroup
  return ⟨.ahead negated piece.node, .none, .plain⟩

def readBehind (body : Read Piece) (negated : Bool) : Read Piece := do
  let outer := (← get).behind
  modify fun reading => { reading with behind := some (outer.getD reading.groups) }
  let piece ← body
  modify fun reading => { reading with behind := outer }
  closeGroup
  if piece.width.most ≠ some piece.width.least then refuse
  else return ⟨.behind negated piece.width.least piece.node, .none, .plain⟩

/-- The group that a condition asks about; it may come later. -/
def readCondition : Read Nat := do
  let name ← upToAfter ')'
  if isGroupName name then
    let index ← groupNamed name
    let _ ← checkGroup index
    return index
  else if name.all Char.isDigit then
    let index := decimalNumber name
    if index = 0 then refuse
    modify fun reading => { reading with conditions := index :: reading.conditions }
    if (← get).behind.isSome then
      let _ ← checkGroup index
    return index
  else refuse

/-- A group under changed options. -/
def readScoped (body : Read Piece) (added removed : Options) (wide : Bool) : Read Piece := do
  let outer := (← get).options
  let base := if added.ascii || wide then { outer with ascii := false } else outer
  modify fun reading => { reading with options := (base.union added).without removed }
  let piece ← body
  modify fun reading => { reading with options := outer }
  closeGroup
  return ⟨piece.node, piece.width, .plain⟩

mutual

/-- Alternatives up to a closing parenthesis or the end. -/
def readEither (fuel : Nat) (outermost : Bool) : Read Piece :=
  match fuel with
  | 0 => refuse
  | fuel + 1 => do
      let first := joinPieces (← readPieces fuel outermost [])
      if ← accept '|' then
        let second ← readEither fuel false
        return ⟨.either first.node second.node, first.width.either second.width, .plain⟩
      else return first

/-- Pieces up to a bar, a closing parenthesis or the end, the latest first. -/
def readPieces (fuel : Nat) (outermost : Bool) (pieces : List Piece) : Read (List Piece) :=
  match fuel with
  | 0 => refuse
  | fuel + 1 => do
      match (← get).rest with
      | [] => return pieces
      | character :: rest =>
          if character = '|' ∨ character = ')' then return pieces
          let options := (← get).options
          modify fun reading => { reading with rest }
          if options.verbose ∧ (character = ' ' ∨ ('\x09' ≤ character ∧ character ≤ '\x0d')) then
            readPieces fuel outermost pieces
          else if options.verbose ∧ character = '#' then
            modify fun reading =>
              { reading with rest := (reading.rest.dropWhile (· != '\n')).drop 1 }
            readPieces fuel outermost pieces
          else if character = '\\' then
            readPieces fuel outermost ((← readEscape) :: pieces)
          else if character = '.' then
            readPieces fuel outermost (⟨.any options, .one, .plain⟩ :: pieces)
          else if character = '^' then
            let place : Place := if options.multiline then .lineStart else .textStart
            readPieces fuel outermost (⟨.anchor options place, .none, .place⟩ :: pieces)
          else if character = '$' then
            let place : Place := if options.multiline then .lineEnd else .finalLineEnd
            readPieces fuel outermost (⟨.anchor options place, .none, .place⟩ :: pieces)
          else if character = '[' then
            let negated ← accept '^'
            let items ← readSetItems rest.length []
            readPieces fuel outermost (⟨.set options negated items, .one, .plain⟩ :: pieces)
          else if character = '*' then
            readPieces fuel outermost (← repeatLast pieces 0 none)
          else if character = '+' then
            readPieces fuel outermost (← repeatLast pieces 1 none)
          else if character = '?' then
            readPieces fuel outermost (← repeatLast pieces 0 (some 1))
          else if character = '\x7b' then
            match ← readBounds with
            | some (least, most) => readPieces fuel outermost (← repeatLast pieces least most)
            | none => readPieces fuel outermost ((← literal character) :: pieces)
          else if character = '(' then
            match ← readGroup fuel (outermost && pieces.isEmpty) with
            | some piece => readPieces fuel outermost (piece :: pieces)
            | none => readPieces fuel outermost pieces
          else readPieces fuel outermost ((← literal character) :: pieces)

/-- What follows an opening parenthesis; comments and options for the whole expression leave no
piece. -/
def readGroup (fuel : Nat) (leading : Bool) : Read (Option Piece) :=
  match fuel with
  | 0 => refuse
  | fuel + 1 => do
      if !(← accept '?') then return some (← readCapture (readEither fuel false) none)
      let character ← demand
      match character with
      | 'P' =>
          let form ← demand
          if form = '<' then
            let name ← upToAfter '>'
            if isGroupName name then
              return some (← readCapture (readEither fuel false) (some name))
            else refuse
          else if form = '=' then
            let name ← upToAfter ')'
            if isGroupName name then return some (← referTo (← groupNamed name)) else refuse
          else refuse
      | ':' => return some (← readPlainGroup (readEither fuel false))
      | '#' =>
          let rest := (← get).rest.dropWhile (· != ')')
          match rest with
          | [] => refuse
          | _ :: rest =>
              modify fun reading => { reading with rest }
              return none
      | '=' => return some (← readAhead (readEither fuel false) false)
      | '!' => return some (← readAhead (readEither fuel false) true)
      | '<' =>
          let form ← demand
          if form = '=' then return some (← readBehind (readEither fuel false) false)
          else if form = '!' then return some (← readBehind (readEither fuel false) true)
          else refuse
      | '>' =>
          let piece ← readPlainGroup (readEither fuel false)
          return some { piece with node := .atomic piece.node }
      | '(' =>
          let index ← readCondition
          let matched := joinPieces (← readPieces fuel false [])
          let unmatched ←
            if ← accept '|' then pure (joinPieces (← readPieces fuel false []))
            else pure ⟨.empty, .none, .plain⟩
          closeGroup
          return some
            ⟨.ifCaptured index matched.node unmatched.node,
              matched.width.either unmatched.width, .plain⟩
      | character =>
          let (added, wide, ending) ← readOptionLetters ((← get).rest.length + 1) {} false character
          if ending = ')' then
            if character = ')' ∨ !leading then refuse
            else
              modify fun reading => { reading with options := reading.options.union added }
              return none
          else if ending = ':' then
            return some (← readScoped (readEither fuel false) added {} wide)
          else if ending = '-' then
            let letter ← demand
            let count := (← get).rest.length + 1
            let (removed, widened, last) ← readOptionLetters count {} false letter
            if last ≠ ':' ∨ letter = ':' ∨ removed.ascii ∨ widened then refuse
            else if added.without removed ≠ added then refuse
            else return some (← readScoped (readEither fuel false) added removed wide)
          else refuse

end

/-- The tree of a regular expression and the options in force for all of it. -/
def read? (source : String) (options : Options) : Option (Node × Options) := do
  let characters := source.toList
  let start : Reading := { rest := characters, options }
  let (piece, reading) ← (readEither (3 * characters.length + 3) true).run start
  if reading.rest ≠ [] then none
  else if reading.conditions.any (reading.groups ≤ ·) then none
  else some (piece.node, reading.options)

end Exemplar.Regex
