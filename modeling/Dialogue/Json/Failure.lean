/-!
Why a text is not JSON, and where.  A position counts lines from one, and within the line the
bytes read so far, so that the first byte of a text is at column one and the empty text fails at
column zero.
-/

namespace Dialogue.Json

inductive Cause where
  | endInList
  | endInObject
  | endInString
  | endInValue
  | expectedColon
  | expectedListEnd
  | expectedObjectEnd
  | expectedWord
  | expectedValue
  | invalidEscape
  | invalidNumber
  | invalidCodePoint
  | controlCharacter
  | keyNotString
  | loneSurrogate
  | unfinishedPair
  | trailingComma
  | trailingCharacters
  | tooDeep
  deriving DecidableEq, Repr

def Cause.message : Cause → String
  | .endInList => "EOF while parsing a list"
  | .endInObject => "EOF while parsing an object"
  | .endInString => "EOF while parsing a string"
  | .endInValue => "EOF while parsing a value"
  | .expectedColon => "expected `:`"
  | .expectedListEnd => "expected `,` or `]`"
  | .expectedObjectEnd => "expected `,` or `\x7d`"
  | .expectedWord => "expected ident"
  | .expectedValue => "expected value"
  | .invalidEscape => "invalid escape"
  | .invalidNumber => "invalid number"
  | .invalidCodePoint => "invalid unicode code point"
  | .controlCharacter => "control character (\\u0000-\\u001F) found while parsing a string"
  | .keyNotString => "key must be a string"
  | .loneSurrogate => "lone leading surrogate in hex escape"
  | .unfinishedPair => "unexpected end of hex escape"
  | .trailingComma => "trailing comma"
  | .trailingCharacters => "trailing characters"
  | .tooDeep => "recursion limit exceeded"

structure Position where
  line : Nat
  column : Nat
  deriving DecidableEq, Repr

def Position.advance (p : Position) (byte : UInt8) : Position :=
  if byte = 10 then ⟨p.line + 1, 0⟩ else ⟨p.line, p.column + 1⟩

def Position.after (read : List UInt8) : Position := read.foldl advance ⟨1, 0⟩

structure Failure where
  cause : Cause
  position : Position
  deriving DecidableEq, Repr

def Failure.message (f : Failure) : String :=
  s!"{f.cause.message} at line {f.position.line} column {f.position.column}"

end Dialogue.Json
