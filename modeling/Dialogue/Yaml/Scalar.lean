import Dialogue.Yaml.Cursor

namespace Dialogue.Yaml

structure Gap where
  blanks : List Char := []
  broken : Bool := false
  first : List Char := []
  more : List Char := []

namespace Gap

/-- A single break is a blank, and of several the first is dropped. -/
def text (gap : Gap) : List Char :=
  if !gap.broken then gap.blanks
  else if gap.first = ['\n'] then (if gap.more.isEmpty then [' '] else gap.more)
  else gap.first ++ gap.more

def scan (column : Nat) : Nat → Gap → Cursor → Option (Gap × Cursor)
  | 0, gap, cur => some (gap, cur)
  | fuel + 1, gap, cur =>
    match cur.rest with
    | [] => some (gap, cur)
    | c :: _ =>
      if isBlank c then
        if gap.broken then
          -- On a new line no tab may stand left of the column.
          if c = '\t' && cur.column < column then none else scan column fuel gap (cur.skip 1)
        else scan column fuel { gap with blanks := gap.blanks ++ [c] } (cur.skip 1)
      else if isBreak c then
        if gap.broken then
          scan column fuel { gap with more := gap.more ++ cur.breakText } cur.skipBreak
        else scan column fuel { gap with broken := true, first := cur.breakText } cur.skipBreak
      else some (gap, cur)

def read (column : Nat) (gap : Gap) (cur : Cursor) : Option (Gap × Cursor) :=
  scan column (cur.rest.length + 1) gap cur

end Gap

def escapeLetter? : Char → Option Char
  | '0' => some '\x00'
  | 'a' => some '\x07'
  | 'b' => some '\x08'
  | 't' | '\t' => some '\t'
  | 'n' => some '\n'
  | 'v' => some '\x0b'
  | 'f' => some '\x0c'
  | 'r' => some '\r'
  | 'e' => some '\x1b'
  | ' ' => some ' '
  | '"' => some '"'
  | '/' => some '/'
  | '\\' => some '\\'
  | 'N' => some '\u0085'
  | '_' => some '\u00a0'
  | 'L' => some '\u2028'
  | 'P' => some '\u2029'
  | _ => none

def escapeDigits? : Char → Option Nat
  | 'x' => some 2
  | 'u' => some 4
  | 'U' => some 8
  | _ => none

def escape? : List Char → Option (Char × Nat)
  | [] => none
  | letter :: rest =>
    match escapeLetter? letter with
    | some c => some (c, 1)
    | none => do
      let count ← escapeDigits? letter
      if (rest.take count).length < count then none
      else
        let n ← hexNumber? (rest.take count)
        if n.isValidChar then return (Char.ofNat n, count + 1) else none

def scanQuoted (single : Bool) : Nat → List Char → Cursor → Option (String × Cursor)
  | 0, _, _ => none
  | fuel + 1, read, cur =>
    let goOn (gap : Gap) (cur : Cursor) : Option (String × Cursor) := do
      let (gap, cur) ← gap.read 0 cur
      if cur.atDocumentStart || cur.atDocumentEnd then none
      else scanQuoted single fuel (gap.text.reverse ++ read) cur
    match cur.rest with
    | [] => none
    | c :: rest =>
      if isSpace c then goOn {} cur
      else if single then
        -- Only the quote itself is escaped here, by writing it twice.
        if c ≠ '\'' then scanQuoted single fuel (c :: read) (cur.skip 1)
        else if rest.head? = some '\'' then scanQuoted single fuel (c :: read) (cur.skip 2)
        else some (String.ofList read.reverse, cur.skip 1)
      else if c = '"' then some (String.ofList read.reverse, cur.skip 1)
      else if c ≠ '\\' then scanQuoted single fuel (c :: read) (cur.skip 1)
      else if rest.head?.any isBreak then goOn { broken := true } (cur.skip 1).skipBreak
      else do
        let (c, count) ← escape? rest
        scanQuoted single fuel (c :: read) (cur.skip (count + 1))

def readQuoted (single : Bool) (cur : Cursor) : Option (String × Cursor) :=
  scanQuoted single (cur.rest.length + 1) [] (cur.skip 1)

def isFlowMark (c : Char) : Bool :=
  c = ',' || c = '[' || c = ']' || c = '\x7b' || c = '\x7d'

structure Plain where
  read : List Char := []
  gap : Gap := {}
  cursor : Cursor

def Plain.text (p : Plain) : String := String.ofList p.read.reverse

/-- The text up to a mark that ends it; in block style also up to a line that begins left of the
column.  `start` says that the word begins here. -/
def scanPlain (flow : Bool) (column : Nat) : Nat → Bool → Plain → Option Plain
  | 0, _, p => some p
  | fuel + 1, start, p =>
    let cur := p.cursor
    if start && (cur.atDocumentStart || cur.atDocumentEnd || cur.isAt '#') then some p
    else
      match cur.rest with
      | [] => some p
      | c :: rest =>
        if isSpace c then do
          let (gap, cur) ← Gap.read column {} cur
          let p := { p with gap, cursor := cur }
          if !flow && cur.column < column then some p else scanPlain flow column fuel true p
        else if flow && c = ':' && rest.head?.any (fun d => isFlowMark d || d = '?') then none
        else if (c = ':' && cur.spaceAfter 1) || (flow && isFlowMark c) then some p
        else
          scanPlain flow column fuel false ⟨c :: (p.gap.text.reverse ++ p.read), {}, cur.skip 1⟩

def readPlain (flow : Bool) (column : Nat) (cur : Cursor) : Option Plain :=
  scanPlain flow column (2 * cur.rest.length + 2) true { cursor := cur }

inductive Chomping where
  | strip
  | clip
  | keep
  deriving DecidableEq, Repr

def chomping? : Char → Option Chomping
  | '-' => some .strip
  | '+' => some .keep
  | _ => none

def readHeader (cur : Cursor) : Option (Chomping × Option Nat × Cursor) :=
  let digit? (cur : Cursor) : Option (Option Nat × Cursor) :=
    match cur.peek? with
    | some '0' => none
    | some c => if c.isDigit then some (some (c.toNat - 48), cur.skip 1) else some (none, cur)
    | none => some (none, cur)
  match cur.peek?.bind chomping? with
  | some chomping => do
    let (indent, cur) ← digit? (cur.skip 1)
    return (chomping, indent, cur)
  | none => do
    let (indent, cur) ← digit? cur
    match if indent.isSome then cur.peek?.bind chomping? else none with
    | some chomping => return (chomping, indent, cur.skip 1)
    | none => return (.clip, indent, cur)

/-- The empty lines that come next: their breaks, the widest of their indentations, and the place
where the next line's text begins.  `indent` is the indentation of the scalar once it is known. -/
def scanEmptyLines (indent : Option Nat) :
    Nat → (widest : Nat) → List Char → Cursor → Option (Nat × List Char × Cursor)
  | 0, widest, breaks, cur => some (widest, breaks, cur)
  | fuel + 1, widest, breaks, cur =>
    let room := match indent with
      | some n => n - cur.column
      | none => cur.rest.length
    let cur := cur.skip ((cur.rest.take room).takeWhile (· = ' ')).length
    let widest := max widest cur.column
    if indent.all (cur.column < ·) && cur.isAt '\t' then none
    else if cur.peek?.any isBreak then
      scanEmptyLines indent fuel widest (breaks ++ cur.breakText) cur.skipBreak
    else some (widest, breaks, cur)

def readEmptyLines (indent : Option Nat) (cur : Cursor) : Option (Nat × List Char × Cursor) :=
  scanEmptyLines indent (cur.rest.length + 1) 0 [] cur

structure Block where
  read : List Char := []
  lineBreak : List Char := []
  emptyLines : List Char := []
  indented : Bool := false
  cursor : Cursor

def scanBlock (folded : Bool) (indent : Nat) : Nat → Block → Option Block
  | 0, b => some b
  | fuel + 1, b =>
    let cur := b.cursor
    if cur.column ≠ indent || cur.rest.isEmpty then some b
    else do
      let indented := cur.peek?.any isBlank
      let joint :=
        if folded && b.lineBreak = ['\n'] && !b.indented && !indented then
          if b.emptyLines.isEmpty then [' '] else []
        else b.lineBreak
      let line := cur.rest.takeWhile (!isBreak ·)
      let cur := cur.skip line.length
      let (_, emptyLines, next) ← readEmptyLines (some indent) cur.skipBreak
      scanBlock folded indent fuel
        { read := line.reverse ++ b.emptyLines.reverse ++ joint.reverse ++ b.read
          lineBreak := cur.breakText
          emptyLines
          indented
          cursor := next }

def Block.text (b : Block) (chomping : Chomping) : String :=
  String.ofList (b.read.reverse ++ match chomping with
    | .strip => []
    | .clip => b.lineBreak
    | .keep => b.lineBreak ++ b.emptyLines)

def readBlock (folded : Bool) (outer : Option Nat) (cur : Cursor) : Option (String × Cursor) := do
  let (chomping, given, cur) ← readHeader (cur.skip 1)
  let cur := (cur.skipWhile isBlank).skipComment
  if cur.peek?.any (!isBreak ·) then none
  else
    let given := given.map (outer.getD 0 + ·)
    let (widest, breaks, cur) ← readEmptyLines given cur.skipBreak
    let least := match outer with
      | some n => n + 1
      | none => 1
    let indent := given.getD (max widest least)
    let b ← scanBlock folded indent (cur.rest.length + 1) { emptyLines := breaks, cursor := cur }
    return (b.text chomping, b.cursor)

end Dialogue.Yaml
