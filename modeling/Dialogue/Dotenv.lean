import Dialogue.Environment
import Dialogue.Text.Blank

/-!
Environment variables from the text of a `.env` file.  A line gives a variable's name, an equals
sign and its value.  A variable that is set already keeps its value, and a malformed line ends the
file: the lines before it count.
-/

namespace Dialogue.Dotenv

inductive LineState where
  | complete
  | blank
  | escape
  | single
  | singleEscape
  | double
  | doubleEscape
  | comment
  deriving DecidableEq, Repr

def LineState.outside (c : Char) : LineState :=
  if c = '\\' then .escape else if c = '"' then .double else if c = '\'' then .single else .complete

def LineState.next (state : LineState) (c : Char) : LineState :=
  match state with
  | .blank => if c = '#' then .comment else .outside c
  | .complete => if Text.isBlank c && c ≠ '\n' && c ≠ '\r' then .blank else .outside c
  | .escape => .complete
  | .double => if c = '\\' then .doubleEscape else if c = '"' then .complete else .double
  | .doubleEscape => .double
  | .single => if c = '\\' then .singleEscape else if c = '\'' then .complete else .single
  | .singleEscape => .single
  | .comment => .comment

def LineState.run : LineState → List Char → LineState × List Char
  | state, [] => (state, [])
  | state, c :: rest =>
    match state.next c with
    | .comment => (.comment, [])
    | next =>
      let (last, kept) := run next rest
      (last, c :: kept)

def rawLines : List Char → List (List Char)
  | [] => []
  | c :: rest =>
    if c = '\n' then [c] :: rawLines rest
    else match rawLines rest with
      | [] => [[c]]
      | line :: others => (c :: line) :: others

def isComment (line : List Char) : Bool := (line.dropWhile Text.isBlank).head? = some '#'

def withoutBreak (line : List Char) : List Char :=
  match line.reverse with
  | '\n' :: '\r' :: rest | '\n' :: rest => rest.reverse
  | _ => line

def joinLines (state : LineState) (begun : List Char) : List (List Char) → List (Option (List Char))
  -- A text that ends in the middle of something ends in a malformed line.
  | [] => if state = .complete then [] else [none]
  | line :: rest =>
    if isComment (begun ++ line) then some [] :: joinLines .complete [] rest
    else
      match state.run line with
      | (.complete, _) => some (withoutBreak (begun ++ line)) :: joinLines .complete [] rest
      | (.comment, kept) => some (begun ++ kept) :: joinLines .complete [] rest
      | (state, _) => joinLines state (begun ++ line) rest

inductive ValueMode where
  | plain
  | single
  | double
  | name (quoted : Bool) (read : List Char)
  | bracketed (quoted : Bool) (read : List Char)
  | escape (quoted : Bool)
  | ended
  deriving DecidableEq, Repr

def ValueMode.ofQuoted (quoted : Bool) : ValueMode := if quoted then .double else .plain

def escaped? : Char → Option Char
  | '\\' => some '\\'
  | '\'' => some '\''
  | '"' => some '"'
  | '$' => some '$'
  | ' ' => some ' '
  | 'n' => some '\n'
  | _ => none

def lookup (environment : Environment) (earlier : List (String × String)) (name : List Char) :
    List Char :=
  let name := String.ofList name
  ((environment name).getD ((earlier.lookup name).getD "")).toList

def scanValue (valueOf : List Char → List Char) :
    ValueMode → List Char → List Char → Option String
  | mode, output, [] =>
    match mode with
    | .plain | .ended | .escape false => some (String.ofList output.reverse)
    | .name false read => some (String.ofList (output.reverse ++ valueOf read.reverse))
    | _ => none
  | mode, output, c :: rest =>
    match mode with
    | .ended =>
      if c = ' ' || c = '\t' then scanValue valueOf .ended output rest
      else if c = '#' then some (String.ofList output.reverse)
      else none
    | .escape quoted => do scanValue valueOf (.ofQuoted quoted) ((← escaped? c) :: output) rest
    | .single =>
      if c = '\'' then scanValue valueOf .plain output rest
      else scanValue valueOf .single (c :: output) rest
    | .name quoted read =>
      if c.isAlphanum then scanValue valueOf (.name quoted (c :: read)) output rest
      else if c = '\x7b' && read.isEmpty then scanValue valueOf (.bracketed quoted []) output rest
      else
        let output := (valueOf read.reverse).reverse ++ output
        if c = '$' then scanValue valueOf (.name quoted []) output rest
        else scanValue valueOf (.ofQuoted quoted) (c :: output) rest
    | .bracketed quoted read =>
      if c = '\x7d' then
        scanValue valueOf (.ofQuoted quoted) ((valueOf read.reverse).reverse ++ output) rest
      else scanValue valueOf (.bracketed quoted (c :: read)) output rest
    | .double =>
      if c = '$' then scanValue valueOf (.name true []) output rest
      else if c = '"' then scanValue valueOf .plain output rest
      else if c = '\\' then scanValue valueOf (.escape true) output rest
      else scanValue valueOf .double (c :: output) rest
    | .plain =>
      if c = '$' then scanValue valueOf (.name false []) output rest
      else if c = '\'' then scanValue valueOf .single output rest
      else if c = '"' then scanValue valueOf .double output rest
      else if c = '\\' then scanValue valueOf (.escape false) output rest
      else if c = ' ' || c = '\t' then scanValue valueOf .ended output rest
      else scanValue valueOf .plain (c :: output) rest

def isNameStart (c : Char) : Bool := c.isAlpha || c = '_'

def isNameChar (c : Char) : Bool := c.isAlphanum || c = '_' || c = '.'

def readName (line : List Char) : Option (String × List Char) :=
  if line.head?.any isNameStart then
    some (String.ofList (line.takeWhile isNameChar),
      (line.dropWhile isNameChar).dropWhile Text.isBlank)
  else none

def readEquals : List Char → Option (List Char)
  | '=' :: rest => some rest
  | _ => none

/-- A variable and its value, if the line gives one; `none` outside says that it is malformed. -/
def readLine (valueOf : List Char → List Char) (line : List Char) :
    Option (Option (String × String)) := do
  let line := (Text.trim (String.ofList line)).toList
  if line.isEmpty || isComment line then return none
  else
    let (name, rest) ← readName line
    let (name, rest) ←
      if name = "export" && (readEquals rest).isNone then readName rest else some (name, rest)
    let value := (← readEquals rest).dropWhile Text.isBlank
    if value.isEmpty || isComment value then return some (name, "")
    else return some (name, ← scanValue valueOf .plain [] value)

def applyLines (environment : Environment) (earlier : List (String × String)) :
    List (Option (List Char)) → Environment
  | [] => environment
  | none :: _ => environment
  | some line :: rest =>
    match readLine (lookup environment earlier) line with
    | none => environment
    | some none => applyLines environment earlier rest
    | some (some (name, value)) =>
      applyLines (environment.default name value) ((name, value) :: earlier) rest

/-- The environment with the variables of a file.  A byte order mark at the beginning is passed. -/
def apply (environment : Environment) (text : String) : Environment :=
  let chars := match text.toList with
    | '\ufeff' :: rest => rest
    | chars => chars
  applyLines environment [] (joinLines .complete [] (rawLines chars))

def names : List Char → List String
  | [] => []
  | '$' :: '\x7b' :: rest => String.ofList (rest.takeWhile (· ≠ '\x7d')) :: names rest
  | '$' :: rest => String.ofList (rest.takeWhile Char.isAlphanum) :: names rest
  | _ :: rest => names rest

end Dialogue.Dotenv
