import Exemplar.Text.Blank
import Exemplar.Text.DecimalDigit

/-!
Decimal numerals of integers. Numerals of more than `digitLimit` digits are neither written nor
read.
-/

namespace Exemplar.Number

def digitLimit : Nat := 4300

/-- The numeral of an integer that has at most `digitLimit` digits. -/
def numeral? (value : Int) : Option String :=
  if value.natAbs < Nat.pow 10 digitLimit then some (toString value) else none

/-- Why a text is no integer. -/
inductive NumeralError where
  | malformed
  | tooLong (digits : Nat)
deriving DecidableEq

/-- White space that may stand around a numeral: the information separators are not among it. -/
def isNumeralBlank (character : Char) : Bool :=
  Text.isBlank character && !(0x1C ≤ character.toNat && character.toNat ≤ 0x1F)

/-- The values of the digits of a numeral; single underscores may stand between two digits. -/
def digitValues : List Char → Option (List Nat)
  | [] => some []
  | [character] => (Text.digit? character).map ([·])
  | character :: next :: rest =>
      match Text.digit? character with
      | none => none
      | some digit =>
          if next = '_' then
            match rest with
            | [] => none
            | following :: _ =>
                if following = '_' then none else (digitValues rest).map (digit :: ·)
          else (digitValues (next :: rest)).map (digit :: ·)

def valueOf (digits : List Nat) : Nat := digits.foldl (fun value digit => value * 10 + digit) 0

/-- Reads an optional sign and the digits after it. -/
def readSigned (characters : List Char) : Except NumeralError Int :=
  let (negative, digits) : Bool × List Char := match characters with
    | '-' :: rest => (true, rest)
    | '+' :: rest => (false, rest)
    | rest => (false, rest)
  if digits.isEmpty then .error .malformed
  else
    match digitValues digits with
    | none => .error .malformed
    | some values =>
        if digitLimit < values.length then .error (.tooLong values.length)
        else
          let magnitude : Int := valueOf values
          .ok (if negative then -magnitude else magnitude)

/-- Reads an integer, white space at either end aside. -/
def readInteger (text : String) : Except NumeralError Int :=
  readSigned ((text.toList.dropWhile isNumeralBlank).reverse.dropWhile isNumeralBlank).reverse

/-- A text that is an optional minus and decimal digits, and nothing else. -/
def isPlainNumeral (text : String) : Bool :=
  let digits := match text.toList with
    | '-' :: rest => rest
    | rest => rest
  !digits.isEmpty && digits.all Text.isDigit

end Exemplar.Number
