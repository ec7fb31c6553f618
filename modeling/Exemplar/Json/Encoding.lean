/-!
Texts from bytes. The encoding of a document is known by its byte order mark or, without one, by
where the zero bytes stand among the first four.
-/

namespace Exemplar.Json

inductive Encoding where
  | utf8
  | utf16 (bigEndian : Bool)
  | utf32 (bigEndian : Bool)
deriving DecidableEq

/-- The encoding of the bytes and the bytes after the mark. -/
def detect : List UInt8 → Encoding × List UInt8
  | 0x00 :: 0x00 :: 0xFE :: 0xFF :: rest => (.utf32 true, rest)
  | 0xFF :: 0xFE :: 0x00 :: 0x00 :: rest => (.utf32 false, rest)
  | 0xFE :: 0xFF :: rest => (.utf16 true, rest)
  | 0xFF :: 0xFE :: rest => (.utf16 false, rest)
  | 0xEF :: 0xBB :: 0xBF :: rest => (.utf8, rest)
  | first :: second :: third :: fourth :: rest =>
      let bytes := first :: second :: third :: fourth :: rest
      if first = 0 then (if second = 0 then .utf32 true else .utf16 true, bytes)
      else if second = 0 then
        (if third = 0 ∧ fourth = 0 then .utf32 false else .utf16 false, bytes)
      else (.utf8, bytes)
  | [first, second] =>
      if first = 0 then (.utf16 true, [first, second])
      else if second = 0 then (.utf16 false, [first, second])
      else (.utf8, [first, second])
  | bytes => (.utf8, bytes)

/-- Half of a surrogate pair that stands alone becomes the replacement character. -/
def characterOf (code : Nat) : Option Char :=
  if 0x10FFFF < code then none
  else if 0xD800 ≤ code ∧ code ≤ 0xDFFF then some '\ufffd'
  else some (Char.ofNat code)

def isTail (byte : UInt8) : Bool := 0x80 ≤ byte && byte ≤ 0xBF

def decodeUtf8 : List UInt8 → Option (List Char)
  | [] => some []
  | first :: rest =>
      if first < 0x80 then (decodeUtf8 rest).map (Char.ofNat first.toNat :: ·)
      else if first < 0xC2 then none
      else
        match rest with
        | [] => none
        | second :: rest =>
            if !isTail second then none
            else if first < 0xE0 then do
              let character ← characterOf ((first.toNat - 0xC0) * 64 + (second.toNat - 0x80))
              (decodeUtf8 rest).map (character :: ·)
            else
              match rest with
              | [] => none
              | third :: rest =>
                  if !isTail third then none
                  else
                    let code := (second.toNat - 0x80) * 64 + (third.toNat - 0x80)
                    if first < 0xF0 then
                      if first = 0xE0 ∧ second < 0xA0 then none
                      else do
                        let character ← characterOf ((first.toNat - 0xE0) * 4096 + code)
                        (decodeUtf8 rest).map (character :: ·)
                    else
                      match rest with
                      | [] => none
                      | fourth :: rest =>
                          if !isTail fourth then none
                          else if 0xF4 < first then none
                          else if first = 0xF0 ∧ second < 0x90 then none
                          else do
                            let character ← characterOf
                              ((first.toNat - 0xF0) * 262144 + code * 64 + (fourth.toNat - 0x80))
                            (decodeUtf8 rest).map (character :: ·)

def unitsOf16 (bigEndian : Bool) : List UInt8 → Option (List Nat)
  | [] => some []
  | [_] => none
  | first :: second :: rest =>
      let unit :=
        if bigEndian then first.toNat * 256 + second.toNat else second.toNat * 256 + first.toNat
      (unitsOf16 bigEndian rest).map (unit :: ·)

def decodeUnits16 : List Nat → List Char
  | [] => []
  | [unit] => ((characterOf unit).map ([·])).getD []
  | first :: second :: rest =>
      if 0xD800 ≤ first ∧ first ≤ 0xDBFF ∧ 0xDC00 ≤ second ∧ second ≤ 0xDFFF then
        Char.ofNat (0x10000 + (first - 0xD800) * 1024 + (second - 0xDC00)) :: decodeUnits16 rest
      else ((characterOf first).map ([·])).getD [] ++ decodeUnits16 (second :: rest)

def decodeUtf32 (bigEndian : Bool) : List UInt8 → Option (List Char)
  | [] => some []
  | first :: second :: third :: fourth :: rest => do
      let bytes := [first, second, third, fourth].map UInt8.toNat
      let ordered := if bigEndian then bytes else bytes.reverse
      let character ← characterOf (ordered.foldl (fun code byte => code * 256 + byte) 0)
      (decodeUtf32 bigEndian rest).map (character :: ·)
  | _ => none

/-- The text of a document given as bytes. -/
def decode? (bytes : List UInt8) : Option String :=
  let (encoding, content) := detect bytes
  let characters := match encoding with
    | .utf8 => decodeUtf8 content
    | .utf16 bigEndian => (unitsOf16 bigEndian content).map decodeUnits16
    | .utf32 bigEndian => decodeUtf32 bigEndian content
  characters.map String.ofList

end Exemplar.Json
