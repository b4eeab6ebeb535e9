import Dialogue.Json.Failure

namespace Dialogue.Json

structure Stop where
  cause : Cause
  rest : List UInt8

def stopBefore {α : Type} (cause : Cause) (rest : List UInt8) : Except Stop α :=
  .error ⟨cause, rest⟩

def stopOn {α : Type} (cause : Cause) (rest : List UInt8) : Except Stop α :=
  .error ⟨cause, rest.tail⟩

namespace Byte

@[match_pattern] abbrev quote : UInt8 := 34
@[match_pattern] abbrev plus : UInt8 := 43
@[match_pattern] abbrev comma : UInt8 := 44
@[match_pattern] abbrev minus : UInt8 := 45
@[match_pattern] abbrev point : UInt8 := 46
@[match_pattern] abbrev zero : UInt8 := 48
@[match_pattern] abbrev colon : UInt8 := 58
@[match_pattern] abbrev openArray : UInt8 := 91
@[match_pattern] abbrev backslash : UInt8 := 92
@[match_pattern] abbrev closeArray : UInt8 := 93
@[match_pattern] abbrev openObject : UInt8 := 123
@[match_pattern] abbrev closeObject : UInt8 := 125

def ofChar (c : Char) : UInt8 := UInt8.ofNat c.toNat

def toChar (b : UInt8) : Char := Char.ofNat b.toNat

def isBlank (b : UInt8) : Bool := b = 32 || b = 10 || b = 9 || b = 13

def isDigit (b : UInt8) : Bool := 48 ≤ b && b ≤ 57

def hex? (b : UInt8) : Option Nat :=
  if 48 ≤ b && b ≤ 57 then some (b.toNat - 48)
  else if 97 ≤ b && b ≤ 102 then some (b.toNat - 87)
  else if 65 ≤ b && b ≤ 70 then some (b.toNat - 55)
  else none

end Byte

open Byte

def skipBlanks (input : List UInt8) : List UInt8 := input.dropWhile isBlank

def scanWord (value : α) : List UInt8 → List UInt8 → Except Stop (α × List UInt8)
  | [], input => .ok (value, input)
  | _ :: _, [] => stopBefore .endInValue []
  | e :: es, b :: rest => if b = e then scanWord value es rest else stopBefore .expectedWord rest

def scanInteger : List UInt8 → Except Stop (List UInt8 × List UInt8)
  | [] => stopBefore .endInValue []
  | b :: rest =>
    if b = zero then
      if rest.head?.any isDigit then stopOn .invalidNumber rest else .ok ([b], rest)
    else if isDigit b then .ok (b :: rest.takeWhile isDigit, rest.dropWhile isDigit)
    else stopBefore .invalidNumber rest

def scanFraction : List UInt8 → Except Stop (List UInt8 × List UInt8)
  | [] => .ok ([], [])
  | b :: rest =>
    if b ≠ point then .ok ([], b :: rest)
    else if rest.head?.any isDigit then
      .ok (point :: rest.takeWhile isDigit, rest.dropWhile isDigit)
    else if rest.isEmpty then stopOn .endInValue rest
    else stopOn .invalidNumber rest

def scanSign : List UInt8 → UInt8 × List UInt8
  | [] => (plus, [])
  | b :: rest => if b = plus || b = minus then (b, rest) else (plus, b :: rest)

def scanExponent : List UInt8 → Except Stop (List UInt8 × List UInt8)
  | [] => .ok ([], [])
  | b :: rest =>
    if b ≠ ofChar 'e' && b ≠ ofChar 'E' then .ok ([], b :: rest)
    else
      let (sign, rest) := scanSign rest
      if rest.head?.any isDigit then
        .ok (ofChar 'e' :: sign :: rest.takeWhile isDigit, rest.dropWhile isDigit)
      else if rest.isEmpty then stopBefore .endInValue rest
      else stopBefore .invalidNumber rest.tail

def scanNumber (input : List UInt8) : Except Stop (String × List UInt8) := do
  let (whole, input) ← scanInteger input
  let (fraction, input) ← scanFraction input
  let (exponent, input) ← scanExponent input
  return (String.ofList ((whole ++ fraction ++ exponent).map toChar), input)

def scanHex : List UInt8 → Except Stop (Nat × List UInt8)
  | a :: b :: c :: d :: rest =>
    match hex? a, hex? b, hex? c, hex? d with
    | some a, some b, some c, some d => .ok (((a * 16 + b) * 16 + c) * 16 + d, rest)
    | _, _, _, _ => stopBefore .invalidEscape rest
  | _ => stopBefore .endInString []

def scanMark : List UInt8 → List UInt8 → Except Stop (Unit × List UInt8)
  | [], input => .ok ((), input)
  | _ :: _, [] => stopBefore .endInString []
  | e :: es, b :: rest => if b = e then scanMark es rest else stopBefore .unfinishedPair rest

def scanUnits (input : List UInt8) : Except Stop (Char × List UInt8) := do
  let (first, input) ← scanHex input
  if 0xDC00 ≤ first ∧ first ≤ 0xDFFF then stopBefore .loneSurrogate input
  else if first < 0xD800 ∨ 0xDBFF < first then return (Char.ofNat first, input)
  else
    let ((), input) ← scanMark [backslash, ofChar 'u'] input
    let (second, input) ← scanHex input
    if second < 0xDC00 ∨ 0xDFFF < second then stopBefore .loneSurrogate input
    else return (Char.ofNat (0x10000 + (first - 0xD800) * 1024 + (second - 0xDC00)), input)

def escapedLetter? (b : UInt8) : Option Char :=
  if b = quote then some '"'
  else if b = backslash then some '\\'
  else if b = ofChar '/' then some '/'
  else if b = ofChar 'b' then some '\x08'
  else if b = ofChar 'f' then some '\x0c'
  else if b = ofChar 'n' then some '\n'
  else if b = ofChar 'r' then some '\r'
  else if b = ofChar 't' then some '\t'
  else none

def scanEscape : List UInt8 → Except Stop (Char × List UInt8)
  | [] => stopBefore .endInString []
  | b :: rest =>
    if b = ofChar 'u' then scanUnits rest
    else match escapedLetter? b with
      | some c => .ok (c, rest)
      | none => stopBefore .invalidEscape rest

/-- The bytes of a string up to its closing quote, last byte first.  Every step reads at least one
byte, so fuel that exceeds the length of the input is enough. -/
def scanTextBytes : Nat → List UInt8 → List UInt8 → Except Stop (List UInt8 × List UInt8)
  | 0, _, input => stopBefore .endInString input
  | _ + 1, _, [] => stopBefore .endInString []
  | fuel + 1, read, b :: rest =>
    if b = quote then .ok (read, rest)
    else if b = backslash then do
      let (c, rest) ← scanEscape rest
      scanTextBytes fuel ((String.utf8EncodeChar c).reverse ++ read) rest
    else if b < 32 then stopBefore .controlCharacter rest
    else scanTextBytes fuel (b :: read) rest

def decode? (bytes : List UInt8) : Option String := String.fromUTF8? ⟨bytes.toArray⟩

def skipCharacters : Nat → List UInt8 → List UInt8
  | 0, input => input
  | fuel + 1, input =>
    match [1, 2, 3, 4].find? fun n => n ≤ input.length && (decode? (input.take n)).isSome with
    | some n => skipCharacters fuel (input.drop n)
    | none => input

/-- The text of a string whose opening quote is read.  Bytes that encode no text are noticed at the
closing quote, and the first of them is where the reader stops. -/
def scanText (fuel : Nat) (input : List UInt8) : Except Stop (String × List UInt8) := do
  let (bytes, rest) ← scanTextBytes fuel [] input
  match decode? bytes.reverse with
  | some text => return (text, rest)
  | none => stopOn .invalidCodePoint (skipCharacters input.length input)

end Dialogue.Json
