import Exemplar.Text.LetterCase

/-!
The two naming strategies for input keys: words joined by underscores, and words joined by capitals.
-/

namespace Exemplar.Text

/-- Cuts a name at every underscore. -/
def words : List Char → List (List Char)
  | [] => [[]]
  | character :: rest =>
      match words rest with
      | [] => [[character]]
      | word :: others =>
          if character = '_' then [] :: word :: others else (character :: word) :: others

def capitalized : List Char → List Char
  | [] => []
  | character :: rest => upperCharacter character ++ rest

/-- Maps `created_at` to `createdAt`. -/
def toCamelCase (name : String) : String :=
  match words name.toList with
  | [] => ""
  | first :: others => String.ofList (first ++ others.flatMap capitalized)

def isSmallOrDigit (character : Char) : Bool :=
  ('a' ≤ character && character ≤ 'z') || ('0' ≤ character && character ≤ '9')

def isCapital (character : Char) : Bool := 'A' ≤ character && character ≤ 'Z'

/-- Puts an underscore before every capital that follows a small letter or a digit, ASCII ones
only. -/
def separateCapitals : List Char → List Char
  | [] => []
  | [character] => [character]
  | character :: next :: rest =>
      if isSmallOrDigit character && isCapital next then
        character :: '_' :: separateCapitals (next :: rest)
      else character :: separateCapitals (next :: rest)

/-- Maps `createdAt` to `created_at`. -/
def toSnakeCase (name : String) : String :=
  lower (String.ofList (separateCapitals name.toList))

end Exemplar.Text
