namespace Dialogue.Yaml

def isAllowed (c : Char) : Bool :=
  let n := c.toNat
  n = 9 || n = 10 || n = 13 || (32 ≤ n && n ≤ 126) || n = 0x85 || (0xA0 ≤ n && n ≤ 0xFFFD) ||
    0x10000 ≤ n

def isBreak (c : Char) : Bool :=
  c = '\n' || c = '\r' || c = '\u0085' || c = '\u2028' || c = '\u2029'

def isBlank (c : Char) : Bool := c = ' ' || c = '\t'

def isSpace (c : Char) : Bool := isBlank c || isBreak c

def isNameChar (c : Char) : Bool := c.isAlphanum || c = '_' || c = '-'

def hexValue? (c : Char) : Option Nat :=
  if c.isDigit then some (c.toNat - 48)
  else if 'a' ≤ c && c ≤ 'f' then some (c.toNat - 87)
  else if 'A' ≤ c && c ≤ 'F' then some (c.toNat - 55)
  else none

def hexNumber? (digits : List Char) : Option Nat :=
  digits.foldlM (fun n c => (hexValue? c).map (n * 16 + ·)) 0

structure Cursor where
  rest : List Char
  index : Nat := 0
  line : Nat := 0
  column : Nat := 0

namespace Cursor

def peek? (cur : Cursor) : Option Char := cur.rest.head?

def isAt (cur : Cursor) (c : Char) : Bool := cur.rest.head? = some c

def spaceAfter (cur : Cursor) (n : Nat) : Bool := cur.rest[n]?.all isSpace

def skip (cur : Cursor) (n : Nat) : Cursor :=
  { cur with rest := cur.rest.drop n, index := cur.index + n, column := cur.column + n }

def skipWhile (cur : Cursor) (p : Char → Bool) : Cursor :=
  cur.skip (cur.rest.takeWhile p).length

def skipBreak (cur : Cursor) : Cursor :=
  match cur.rest with
  | '\r' :: '\n' :: rest => ⟨rest, cur.index + 2, cur.line + 1, 0⟩
  | c :: rest => if isBreak c then ⟨rest, cur.index + 1, cur.line + 1, 0⟩ else cur
  | [] => cur

/-- What a line break means as text: the separators of Unicode stand for themselves, and any other
break is a line feed. -/
def breakText (cur : Cursor) : List Char :=
  match cur.rest with
  | c :: _ =>
    if c = '\u2028' || c = '\u2029' then [c] else if isBreak c then ['\n'] else []
  | [] => []

def skipComment (cur : Cursor) : Cursor :=
  if cur.isAt '#' then cur.skipWhile (!isBreak ·) else cur

def atMark (cur : Cursor) (mark : List Char) : Bool :=
  cur.column = 0 && mark.isPrefixOf cur.rest && cur.spaceAfter 3

def atDocumentStart (cur : Cursor) : Bool := cur.atMark ['-', '-', '-']

def atDocumentEnd (cur : Cursor) : Bool := cur.atMark ['.', '.', '.']

end Cursor

end Dialogue.Yaml
