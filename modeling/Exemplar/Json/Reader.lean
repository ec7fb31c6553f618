import Exemplar.Fault
import Exemplar.Json.Encoding
import Exemplar.Regex.Reader
import Exemplar.Value.Kind

/-!
Reading JSON documents. Numbers with neither fraction nor exponent are integers of any size up to
the limit on numerals; the names for infinities and for what is no number are read as well; of a
repeated key the first place and the last value are kept.
-/

namespace Exemplar.Json

open Regex (hexValue?)

def isBlank (character : Char) : Bool :=
  character == ' ' || character == '\t' || character == '\n' || character == '\r'

def skipBlank (characters : List Char) : List Char := characters.dropWhile isBlank

/-- Four hexadecimal digits and what follows them. -/
def readUnit? : List Char → Option (Nat × List Char)
  | a :: b :: c :: d :: rest => do
      let a ← hexValue? a
      let b ← hexValue? b
      let c ← hexValue? c
      let d ← hexValue? d
      return (a * 4096 + b * 256 + c * 16 + d, rest)
  | _ => none

def simpleEscape? : Char → Option Char
  | '"' => some '"'
  | '\\' => some '\\'
  | '/' => some '/'
  | 'b' => some '\x08'
  | 'f' => some '\x0c'
  | 'n' => some '\n'
  | 'r' => some '\r'
  | 't' => some '\t'
  | _ => none

/-- The content of a text after its opening quote, reversed, and what follows its closing quote. -/
def readText : Nat → List Char → List Char → Option (List Char × List Char)
  | 0, _, _ => none
  | _ + 1, _, [] => none
  | fuel + 1, content, character :: rest =>
      if character = '"' then some (content, rest)
      else if character.toNat < 0x20 then none
      else if character ≠ '\\' then readText fuel (character :: content) rest
      else
        match rest with
        | 'u' :: digits => do
            let (first, rest) ← readUnit? digits
            match rest with
            | '\\' :: 'u' :: more =>
                match readUnit? more with
                | some (second, after) =>
                    if 0xD800 ≤ first ∧ first ≤ 0xDBFF ∧ 0xDC00 ≤ second ∧ second ≤ 0xDFFF then
                      let code := 0x10000 + (first - 0xD800) * 1024 + (second - 0xDC00)
                      readText fuel (Char.ofNat code :: content) after
                    else readText fuel ((characterOf first).toList ++ content) rest
                | none => readText fuel ((characterOf first).toList ++ content) rest
            | _ => readText fuel ((characterOf first).toList ++ content) rest
        | escape :: rest => do
            let character ← simpleEscape? escape
            readText fuel (character :: content) rest
        | [] => none

def digitsOf (characters : List Char) : List Char × List Char := characters.span Char.isDigit

/-- The digits after a point, if a digit follows it. -/
def readFraction : List Char → Option (List Char) × List Char
  | '.' :: rest =>
      match digitsOf rest with
      | ([], _) => (none, '.' :: rest)
      | (digits, after) => (some digits, after)
  | rest => (none, rest)

/-- The exponent, if a digit follows its letter and sign. -/
def readExponent : List Char → Option Int × List Char
  | [] => (none, [])
  | letter :: rest =>
      if letter = 'e' ∨ letter = 'E' then
        let (negative, digits) : Bool × List Char := match rest with
          | '-' :: digits => (true, digits)
          | '+' :: digits => (false, digits)
          | digits => (false, digits)
        match digitsOf digits with
        | ([], _) => (none, letter :: rest)
        | (digits, after) =>
            let size : Int := Regex.decimalNumber digits
            (some (if negative then -size else size), after)
      else (none, letter :: rest)

def readNumber (negative : Bool) (characters : List Char) : Except Fault (Value × List Char) :=
  let (whole, rest) := match characters with
    | '0' :: rest => (['0'], rest)
    | characters => digitsOf characters
  if whole.isEmpty then .error .badJson
  else
    let (fraction, rest) := readFraction rest
    let (exponent, rest) := readExponent rest
    match fraction, exponent with
    | none, none =>
        if Number.digitLimit < whole.length then .error (.longNumeral (some whole.length))
        else
          let size : Int := Regex.decimalNumber whole
          .ok (.int (if negative then -size else size), rest)
    | fraction, exponent =>
        let decimals := fraction.getD []
        let power : Int := exponent.getD 0 - decimals.length
        .ok (.float (.ofDecimal negative (Regex.decimalNumber (whole ++ decimals)) power), rest)

/-- What follows a word, if it stands here. -/
def word? : List Char → List Char → Option (List Char)
  | [], rest => some rest
  | _ :: _, [] => none
  | expected :: word, character :: rest => if expected = character then word? word rest else none

def words : List (String × Value) :=
  [("null", .null), ("true", .bool true), ("false", .bool false), ("NaN", .float .nan),
   ("Infinity", .float (.infinite false)), ("-Infinity", .float (.infinite true))]

def readWord (characters : List Char) : Option (Value × List Char) :=
  words.findSome? fun (word, value) => (word? word.toList characters).map fun rest => (value, rest)

def setKey (key : String) (value : Value) : List (Value × Value) → List (Value × Value)
  | [] => [(.text key, value)]
  | (.text other, old) :: rest =>
      if other = key then (.text key, value) :: rest
      else (.text other, old) :: setKey key value rest
  | entry :: rest => entry :: setKey key value rest

mutual

def readValue : Nat → List Char → Except Fault (Value × List Char)
  | 0, _ => .error .badJson
  | fuel + 1, characters =>
      match readWord characters with
      | some found => .ok found
      | none =>
          match characters with
          | '"' :: rest =>
              match readText (rest.length + 1) [] rest with
              | some (content, rest) => .ok (.text (String.ofList content.reverse), rest)
              | none => .error .badJson
          | '[' :: rest =>
              match skipBlank rest with
              | ']' :: rest => .ok (.list [], rest)
              | rest => readElements fuel [] rest
          | '\x7b' :: rest =>
              match skipBlank rest with
              | '\x7d' :: rest => .ok (.mapping [], rest)
              | rest => readEntries fuel [] rest
          | '-' :: rest => readNumber true rest
          | characters => readNumber false characters

/-- The elements of an array up to its closing bracket; those read before are given in reverse. -/
def readElements : Nat → List Value → List Char → Except Fault (Value × List Char)
  | 0, _, _ => .error .badJson
  | fuel + 1, before, characters =>
      match readValue fuel characters with
      | .error fault => .error fault
      | .ok (value, rest) =>
          match skipBlank rest with
          | ']' :: rest => .ok (.list (value :: before).reverse, rest)
          | ',' :: rest => readElements fuel (value :: before) (skipBlank rest)
          | _ => .error .badJson

/-- The entries of an object up to its closing brace. -/
def readEntries : Nat → List (Value × Value) → List Char → Except Fault (Value × List Char)
  | 0, _, _ => .error .badJson
  | fuel + 1, before, characters =>
      match characters with
      | '"' :: rest =>
          match readText (rest.length + 1) [] rest with
          | none => .error .badJson
          | some (key, rest) =>
              match skipBlank rest with
              | ':' :: rest =>
                  match readValue fuel (skipBlank rest) with
                  | .error fault => .error fault
                  | .ok (value, rest) =>
                      let entries := setKey (String.ofList key.reverse) value before
                      match skipBlank rest with
                      | '\x7d' :: rest => .ok (.mapping entries, rest)
                      | ',' :: rest => readEntries fuel entries (skipBlank rest)
                      | _ => .error .badJson
              | _ => .error .badJson
      | _ => .error .badJson

end

/-- The value of a document. -/
def read (document : String) : Except Fault Value :=
  let characters := skipBlank document.toList
  match readValue (characters.length + 1) characters with
  | .error fault => .error fault
  | .ok (value, rest) => if (skipBlank rest).isEmpty then .ok value else .error .badJson

/-- The value of a document given as a text or as bytes. A text must not begin with a byte order
mark. -/
def load (heap : Heap) (document : Value) : Except Fault Value :=
  match heap.look document with
  | .text text => if text.toList.head? = some '\ufeff' then .error .badJson else read text
  | .bytes bytes =>
      match decode? bytes with
      | some text => read text
      | none => .error .badEncoding
  | shape => .error (.notJsonText shape.className)

end Exemplar.Json
