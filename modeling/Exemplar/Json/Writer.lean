/-!
Writing JSON documents, with neither blanks nor escapes where none are needed.
-/

namespace Exemplar.Json

def hexDigit (value : Nat) : Char := "0123456789abcdef".toList[value]?.getD '0'

def escaped (character : Char) : List Char :=
  match character with
  | '"' => ['\\', '"']
  | '\\' => ['\\', '\\']
  | '\n' => ['\\', 'n']
  | '\r' => ['\\', 'r']
  | '\t' => ['\\', 't']
  | '\x08' => ['\\', 'b']
  | '\x0c' => ['\\', 'f']
  | character =>
      if character.toNat < 0x20 then
        ['\\', 'u', '0', '0', hexDigit (character.toNat / 16), hexDigit (character.toNat % 16)]
      else [character]

def string (text : String) : String :=
  String.ofList ('"' :: text.toList.flatMap escaped ++ ['"'])

def boolean (value : Bool) : String := if value then "true" else "false"

/-- An array of documents written already. -/
def array (elements : List String) : String := "[" ++ ",".intercalate elements ++ "]"

/-- An object of documents written already. -/
def object (entries : List (String × String)) : String :=
  "\x7b" ++ ",".intercalate (entries.map fun (key, value) => string key ++ ":" ++ value) ++ "\x7d"

end Exemplar.Json
