import Dialogue.Yaml.Scalar

/-!
The tokens of a YAML text.  Indentation shows in them as the marks that open and close blocks.

A key that is written without a mark is recognised only at the colon behind it.  So wherever such a
key may begin, the place is remembered, and the mark is put in there once the colon is met.
-/

namespace Dialogue.Yaml

inductive Token where
  | versionDirective (major minor : Nat)
  | tagDirective (handle start : String)
  | documentStart
  | documentEnd
  | blockSequence
  | blockMapping
  | blockEnd
  | openSequence
  | closeSequence
  | openMapping
  | closeMapping
  | blockEntry
  | flowEntry
  | key
  | value
  | alias (name : String)
  | anchor (name : String)
  | tag (handle suffix : String)
  | scalar (text : String) (plain : Bool)
  deriving DecidableEq, Repr

/-- A place where a key without a mark may have begun. -/
structure KeyStart where
  required : Bool
  position : Nat
  index : Nat
  line : Nat
  column : Nat

structure Scanner where
  cursor : Cursor
  tokens : List Token := []
  count : Nat := 0
  indents : List Nat := []
  keyAllowed : Bool := true
  blockKey : Option KeyStart := none
  flowKeys : List (Option KeyStart) := []

namespace Scanner

def inFlow (s : Scanner) : Bool := !s.flowKeys.isEmpty

def emit (s : Scanner) (token : Token) : Scanner :=
  { s with tokens := token :: s.tokens, count := s.count + 1 }

def insert (s : Scanner) (position : Nat) (tokens : List Token) : Scanner :=
  let behind := s.count - position
  { s with
    tokens := s.tokens.take behind ++ tokens ++ s.tokens.drop behind
    count := s.count + tokens.length }

def skip (s : Scanner) (n : Nat) : Scanner := { s with cursor := s.cursor.skip n }

def pendingKey (s : Scanner) : Option KeyStart :=
  match s.flowKeys with
  | key :: _ => key
  | [] => s.blockKey

def setKey (s : Scanner) (key : Option KeyStart) : Scanner :=
  match s.flowKeys with
  | _ :: outer => { s with flowKeys := key :: outer }
  | [] => { s with blockKey := key }

def dropKey (s : Scanner) : Option Scanner :=
  if s.pendingKey.any (·.required) then none else some (s.setKey none)

def saveKey (s : Scanner) : Option Scanner :=
  if !s.keyAllowed then some s
  else do
    let start : KeyStart :=
      { required := !s.inFlow && s.indents.head? = some s.cursor.column
        position := s.count
        index := s.cursor.index
        line := s.cursor.line
        column := s.cursor.column }
    return (← s.dropKey).setKey (some start)

def longestKey : Nat := 1024

def isStale (s : Scanner) (key : KeyStart) : Bool :=
  key.line < s.cursor.line || key.index + longestKey < s.cursor.index

def dropStale (s : Scanner) : Option Scanner :=
  let keep (key : Option KeyStart) : Option (Option KeyStart) :=
    if key.any s.isStale then (if key.any (·.required) then none else some none) else some key
  do
    let blockKey ← keep s.blockKey
    let flowKeys ← s.flowKeys.mapM keep
    return { s with blockKey, flowKeys }

def isDeeper (s : Scanner) (column : Nat) : Bool := !s.inFlow && s.indents.head?.all (· < column)

def openBlock (s : Scanner) (column : Nat) (token : Token) : Scanner :=
  if s.isDeeper column then { s.emit token with indents := column :: s.indents } else s

def closeBlocks (s : Scanner) (column : Option Nat) : Scanner :=
  if s.inFlow then s
  else
    let deeper := s.indents.takeWhile fun indent => column.all (· < indent)
    { s with
      tokens := deeper.map (fun _ => .blockEnd) ++ s.tokens
      count := s.count + deeper.length
      indents := s.indents.drop deeper.length }

def skipSpace : Nat → Scanner → Scanner
  | 0, s => s
  | fuel + 1, s =>
    let cur := s.cursor
    let cur := if cur.index = 0 && cur.isAt '\ufeff' then cur.skip 1 else cur
    let cur := cur.skipWhile fun c => c = ' ' || (c = '\t' && (s.inFlow || !s.keyAllowed))
    let cur := cur.skipComment
    if cur.peek?.any isBreak then
      skipSpace fuel { s with cursor := cur.skipBreak, keyAllowed := s.keyAllowed || !s.inFlow }
    else { s with cursor := cur }

def readNumber (cur : Cursor) : Option (Nat × Cursor) :=
  let digits := cur.rest.takeWhile Char.isDigit
  if digits.isEmpty || 9 < digits.length then none
  else some (digits.foldl (fun n c => n * 10 + (c.toNat - 48)) 0, cur.skip digits.length)

def readVersion (cur : Cursor) : Option (Token × Cursor) := do
  let (major, cur) ← readNumber (cur.skipWhile isBlank)
  if !cur.isAt '.' then none
  else
    let (minor, cur) ← readNumber (cur.skip 1)
    return (.versionDirective major minor, cur)

def readHandle (cur : Cursor) : Option (List Char × Cursor) :=
  if !cur.isAt '!' then none
  else
    let name := (cur.skip 1).rest.takeWhile isNameChar
    let next := cur.skip (name.length + 1)
    if next.isAt '!' then some ('!' :: name ++ ['!'], next.skip 1) else some ('!' :: name, next)

def isTagChar (verbatim : Bool) (c : Char) : Bool :=
  isNameChar c || (";/?:@&=+$.!~*'()".toList.contains c) ||
    (verbatim && (c = ',' || c = '[' || c = ']'))

def escapedBytes : List Char → List UInt8
  | '%' :: a :: b :: rest =>
    match hexValue? a, hexValue? b with
    | some x, some y => UInt8.ofNat (x * 16 + y) :: escapedBytes rest
    | _, _ => []
  | _ => []

def readEscapedChar (cur : Cursor) : Option (Char × Cursor) := do
  let bytes := escapedBytes (cur.rest.take 12)
  let lead ← bytes.head?
  let width :=
    if lead < 0x80 then 1 else if lead < 0xC0 then 0 else if lead < 0xE0 then 2
    else if lead < 0xF0 then 3 else if lead < 0xF8 then 4 else 0
  let text ← String.fromUTF8? ⟨(bytes.take width).toArray⟩
  return (← text.toList.head?, cur.skip (3 * width))

def scanTagText (verbatim : Bool) : Nat → List Char → Cursor → Option (List Char × Cursor)
  | 0, read, cur => some (read.reverse, cur)
  | fuel + 1, read, cur =>
    match cur.rest with
    | [] => some (read.reverse, cur)
    | c :: _ =>
      if c = '%' then do
        let (c, cur) ← readEscapedChar cur
        scanTagText verbatim fuel (c :: read) cur
      else if isTagChar verbatim c then scanTagText verbatim fuel (c :: read) (cur.skip 1)
      else some (read.reverse, cur)

def readTagText (verbatim : Bool) (cur : Cursor) : Option (List Char × Cursor) :=
  scanTagText verbatim (cur.rest.length + 1) [] cur

def readTagDirective (cur : Cursor) : Option (Token × Cursor) := do
  let (handle, cur) ← readHandle (cur.skipWhile isBlank)
  if handle ≠ ['!'] && handle.getLast? ≠ some '!' then none
  else if !cur.peek?.any isBlank then none
  else
    let (start, cur) ← readTagText true (cur.skipWhile isBlank)
    if start.isEmpty || !cur.spaceAfter 0 then none
    else return (.tagDirective (String.ofList handle) (String.ofList start), cur)

def directive (s : Scanner) : Option Scanner := do
  let s ← (s.closeBlocks none).dropKey
  let cur := s.cursor.skip 1
  let name := cur.rest.takeWhile isNameChar
  let cur := cur.skip name.length
  if name.isEmpty || !cur.spaceAfter 0 then none
  else
    let (token, cur) ← match String.ofList name with
      | "YAML" => readVersion cur
      | "TAG" => readTagDirective cur
      | _ => none
    let cur := (cur.skipWhile isBlank).skipComment
    if cur.peek?.any (!isBreak ·) then none
    else return { s.emit token with cursor := cur.skipBreak, keyAllowed := false }

def documentMark (s : Scanner) (token : Token) : Option Scanner := do
  let s ← (s.closeBlocks none).dropKey
  return { (s.emit token).skip 3 with keyAllowed := false }

def openFlow (s : Scanner) (token : Token) : Option Scanner := do
  let s ← s.saveKey
  return { (s.emit token).skip 1 with keyAllowed := true, flowKeys := none :: s.flowKeys }

def closeFlow (s : Scanner) (token : Token) : Option Scanner := do
  let s ← s.dropKey
  return { (s.emit token).skip 1 with keyAllowed := false, flowKeys := s.flowKeys.tail }

def flowEntry (s : Scanner) : Option Scanner := do
  let s ← s.dropKey
  return { (s.emit .flowEntry).skip 1 with keyAllowed := true }

def blockMark (s : Scanner) (block token : Token) (keyAllowed : Bool) : Option Scanner :=
  if !s.inFlow && !s.keyAllowed then none
  else do
    let s ← (s.openBlock s.cursor.column block).dropKey
    return { (s.emit token).skip 1 with keyAllowed }

/-- The colon behind a key.  The key's mark goes where the key began, behind the mark of the
mapping if the key opens one. -/
def valueMark (s : Scanner) : Option Scanner :=
  match s.pendingKey with
  | some key =>
    let deeper := s.isDeeper key.column
    let s := s.insert key.position (if deeper then [.key, .blockMapping] else [.key])
    let s := if deeper then { s with indents := key.column :: s.indents } else s
    some { ((s.setKey none).emit .value).skip 1 with keyAllowed := false }
  | none =>
    if !s.inFlow && !s.keyAllowed then none
    else
      let s := s.openBlock s.cursor.column .blockMapping
      some { (s.emit .value).skip 1 with keyAllowed := !s.inFlow }

def anchorName (s : Scanner) (token : String → Token) : Option Scanner := do
  let s ← s.saveKey
  let name := (s.cursor.skip 1).rest.takeWhile isNameChar
  let s := s.skip (name.length + 1)
  if name.isEmpty || !(s.cursor.spaceAfter 0 || s.cursor.peek?.any "?:,]\x7d%@`".toList.contains)
  then none
  else return { s.emit (token (String.ofList name)) with keyAllowed := false }

def readTag (cur : Cursor) : Option (Token × Cursor) := do
  if cur.rest[1]? = some '<' then
    let (text, cur) ← readTagText true (cur.skip 2)
    if text.isEmpty || !cur.isAt '>' then none
    else return (.tag "" (String.ofList text), cur.skip 1)
  else
    let (handle, cur) ← readHandle cur
    let (text, cur) ← readTagText false cur
    if 1 < handle.length && handle.getLast? = some '!' then
      if text.isEmpty then none else return (.tag (String.ofList handle) (String.ofList text), cur)
    else
      let suffix := handle.tail ++ text
      if suffix.isEmpty then return (.tag "" "!", cur)
      else return (.tag "!" (String.ofList suffix), cur)

def tag (s : Scanner) : Option Scanner := do
  let s ← s.saveKey
  let (token, cur) ← readTag s.cursor
  if !(cur.spaceAfter 0 || (s.inFlow && cur.isAt ',')) then none
  else return { s.emit token with cursor := cur, keyAllowed := false }

def blockScalar (s : Scanner) (folded : Bool) : Option Scanner := do
  let s ← s.dropKey
  let (text, cur) ← readBlock folded s.indents.head? s.cursor
  return { s.emit (.scalar text false) with cursor := cur, keyAllowed := true }

def quotedScalar (s : Scanner) (single : Bool) : Option Scanner := do
  let s ← s.saveKey
  let (text, cur) ← readQuoted single s.cursor
  return { s.emit (.scalar text false) with cursor := cur, keyAllowed := false }

def plainScalar (s : Scanner) : Option Scanner := do
  let s ← s.saveKey
  let column := match s.indents.head? with
    | some indent => indent + 1
    | none => 0
  let p ← readPlain s.inFlow column s.cursor
  return { s.emit (.scalar p.text true) with cursor := p.cursor, keyAllowed := p.gap.broken }

def beginsPlain (s : Scanner) (c : Char) : Bool :=
  if c = '-' then !s.cursor.rest[1]?.any isBlank
  else if c = '?' || c = ':' then !s.inFlow && !s.cursor.spaceAfter 1
  else !(isBlank c || "!\"#%&'*,>@[]`\x7b|\x7d".toList.contains c)

def token (s : Scanner) (c : Char) : Option Scanner :=
  let cur := s.cursor
  if cur.column = 0 && c = '%' then s.directive
  else if cur.atDocumentStart then s.documentMark .documentStart
  else if cur.atDocumentEnd then s.documentMark .documentEnd
  else if c = '[' then s.openFlow .openSequence
  else if c = '\x7b' then s.openFlow .openMapping
  else if c = ']' then s.closeFlow .closeSequence
  else if c = '\x7d' then s.closeFlow .closeMapping
  else if c = ',' then s.flowEntry
  else if c = '-' && cur.spaceAfter 1 then s.blockMark .blockSequence .blockEntry true
  else if c = '?' && (s.inFlow || cur.spaceAfter 1) then
    s.blockMark .blockMapping .key (!s.inFlow)
  else if c = ':' && (s.inFlow || cur.spaceAfter 1) then s.valueMark
  else if c = '*' then s.anchorName .alias
  else if c = '&' then s.anchorName .anchor
  else if c = '!' then s.tag
  else if c = '|' && !s.inFlow then s.blockScalar false
  else if c = '>' && !s.inFlow then s.blockScalar true
  else if c = '\'' then s.quotedScalar true
  else if c = '"' then s.quotedScalar false
  else if s.beginsPlain c then s.plainScalar
  else none

def scan : Nat → Scanner → Option (List Token)
  | 0, _ => none
  | fuel + 1, s => do
    let s ← (s.skipSpace (s.cursor.rest.length + 1)).dropStale
    match s.cursor.rest with
    | [] =>
      let s ← (s.closeBlocks none).dropKey
      return s.tokens.reverse
    | c :: _ => scan fuel (← (s.closeBlocks (some s.cursor.column)).token c)

end Scanner

def tokens? (text : String) : Option (List Token) :=
  let chars := text.toList
  if chars.all isAllowed then Scanner.scan (chars.length + 1) { cursor := { rest := chars } }
  else none

end Dialogue.Yaml
