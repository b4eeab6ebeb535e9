import Dialogue.Json.Scan
import Dialogue.Json.Value

namespace Dialogue.Json

open Byte

/-- How many arrays and objects may stand inside one another. -/
def depthLimit : Nat := 127

def scanColon (input : List UInt8) : Except Stop (Unit × List UInt8) :=
  match skipBlanks input with
  | [] => stopOn .endInObject []
  | b :: rest => if b = colon then .ok ((), rest) else stopOn .expectedColon (b :: rest)

mutual

/-- A value, with at most `depth` arrays and objects inside one another.  Between two nested calls
at least one byte is read, so fuel that exceeds the length of the input is enough. -/
def scanValue : (fuel depth : Nat) → List UInt8 → Except Stop (Json × List UInt8)
  | 0, _, input => stopBefore .endInValue input
  | fuel + 1, depth, input =>
    match skipBlanks input with
    | [] => stopOn .endInValue []
    | b :: rest =>
      if b = quote then do
        let (text, rest) ← scanText fuel rest
        return (.string text, rest)
      else if b = openArray then
        match depth with
        | 0 => stopOn .tooDeep (b :: rest)
        | depth + 1 =>
          match skipBlanks rest with
          | [] => stopOn .endInList []
          | c :: after =>
            if c = closeArray then .ok (.array [], after)
            else do
              let (first, rest) ← scanValue fuel depth (c :: after)
              let (items, rest) ← scanItems fuel depth [first] rest
              return (.array items, rest)
      else if b = openObject then
        match depth with
        | 0 => stopOn .tooDeep (b :: rest)
        | depth + 1 =>
          match skipBlanks rest with
          | [] => stopOn .endInObject []
          | c :: after =>
            if c = closeObject then .ok (.object [], after)
            else if c = quote then do
              let (key, rest) ← scanText fuel after
              let ((), rest) ← scanColon rest
              let (first, rest) ← scanValue fuel depth rest
              let (members, rest) ← scanMembers fuel depth [(key, first)] rest
              return (.object members, rest)
            else stopOn .keyNotString (c :: after)
      else if b = minus then do
        let (spelling, rest) ← scanNumber rest
        return (.number ("-" ++ spelling), rest)
      else if isDigit b then do
        let (spelling, rest) ← scanNumber (b :: rest)
        return (.number spelling, rest)
      else if b = ofChar 'n' then scanWord .null (['u', 'l', 'l'].map ofChar) rest
      else if b = ofChar 't' then scanWord (.bool true) (['r', 'u', 'e'].map ofChar) rest
      else if b = ofChar 'f' then scanWord (.bool false) (['a', 'l', 's', 'e'].map ofChar) rest
      else stopOn .expectedValue (b :: rest)

def scanItems : (fuel depth : Nat) → List Json → List UInt8 → Except Stop (List Json × List UInt8)
  | 0, _, _, input => stopBefore .endInList input
  | fuel + 1, depth, read, input =>
    match skipBlanks input with
    | [] => stopOn .endInList []
    | b :: rest =>
      if b = closeArray then .ok (read.reverse, rest)
      else if b = comma then
        match skipBlanks rest with
        | [] => stopOn .endInValue []
        | c :: after =>
          if c = closeArray then stopOn .trailingComma (c :: after)
          else do
            let (item, rest) ← scanValue fuel depth (c :: after)
            scanItems fuel depth (item :: read) rest
      else stopOn .expectedListEnd (b :: rest)

def scanMembers : (fuel depth : Nat) → Members → List UInt8 → Except Stop (Members × List UInt8)
  | 0, _, _, input => stopBefore .endInObject input
  | fuel + 1, depth, read, input =>
    match skipBlanks input with
    | [] => stopOn .endInObject []
    | b :: rest =>
      if b = closeObject then .ok (read, rest)
      else if b = comma then
        match skipBlanks rest with
        | [] => stopOn .endInValue []
        | c :: after =>
          if c = quote then do
            let (key, rest) ← scanText fuel after
            let ((), rest) ← scanColon rest
            let (value, rest) ← scanValue fuel depth rest
            scanMembers fuel depth (Members.put key value read) rest
          else if c = closeObject then stopOn .trailingComma (c :: after)
          else stopOn .keyNotString (c :: after)
      else stopOn .expectedObjectEnd (b :: rest)

end

def scanDocument (input : List UInt8) : Except Stop Json := do
  let (value, rest) ← scanValue (input.length + 1) depthLimit input
  match skipBlanks rest with
  | [] => return value
  | b :: after => stopOn .trailingCharacters (b :: after)

/-- The value that the bytes spell.  No key of an object has a meaning of its own. -/
def read (input : List UInt8) : Except Failure Json :=
  match scanDocument input with
  | .ok value => .ok value
  | .error stop =>
    .error ⟨stop.cause, Position.after (input.take (input.length - stop.rest.length))⟩

/-- Whatever decides which bytes spell a value. -/
abbrev Reader := List UInt8 → Except Failure Json

def bytesOf (text : String) : List UInt8 := text.toUTF8.data.toList

def readText (text : String) : Except Failure Json := read (bytesOf text)

end Dialogue.Json
