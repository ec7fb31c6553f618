import Exemplar.Text.Printable

/-!
Quoted texts and byte strings. The quote is the single one unless the content holds a single quote
and no double one; the quote itself, the backslash and whatever cannot be shown are escaped.
-/

namespace Exemplar.Text

def hexDigit (value : Nat) : Char :=
  if value < 10 then Char.ofNat (48 + value) else Char.ofNat (87 + value)

/-- The last `width` hexadecimal digits of a number. -/
def hexDigits : Nat → Nat → List Char
  | 0, _ => []
  | width + 1, value => hexDigits width (value / 16) ++ [hexDigit (value % 16)]

def quoteFor (content : List Char) : Char :=
  if content.contains '\'' && !content.contains '"' then '"' else '\''

/-- The escapes that texts and byte strings share. -/
def shortEscape? (quote : Char) (character : Char) : Option (List Char) :=
  if character = quote || character = '\\' then some ['\\', character]
  else if character = '\n' then some ['\\', 'n']
  else if character = '\r' then some ['\\', 'r']
  else if character = '\t' then some ['\\', 't']
  else none

def escapeCharacter (quote character : Char) : List Char :=
  match shortEscape? quote character with
  | some escape => escape
  | none =>
      if isPrintable character then [character]
      else
        let code := character.toNat
        if code < 0x100 then '\\' :: 'x' :: hexDigits 2 code
        else if code < 0x10000 then '\\' :: 'u' :: hexDigits 4 code
        else '\\' :: 'U' :: hexDigits 8 code

def quoted (content : String) : String :=
  let characters := content.toList
  let quote := quoteFor characters
  String.ofList (quote :: characters.flatMap (escapeCharacter quote) ++ [quote])

def escapeByte (quote : Char) (byte : UInt8) : List Char :=
  let character := Char.ofNat byte.toNat
  match shortEscape? quote character with
  | some escape => escape
  | none =>
      if 0x20 ≤ byte.toNat ∧ byte.toNat < 0x7F then [character]
      else '\\' :: 'x' :: hexDigits 2 byte.toNat

def quotedBytes (bytes : List UInt8) : String :=
  let quote := quoteFor (bytes.map fun byte => Char.ofNat byte.toNat)
  String.ofList ('b' :: quote :: bytes.flatMap (escapeByte quote) ++ [quote])

end Exemplar.Text
