import Dialogue.Yaml.Token

namespace Dialogue.Yaml

structure Scalar where
  text : String
  plain : Bool
  tag : Option String := none
  deriving DecidableEq, Repr

def Scalar.empty : Scalar := { text := "", plain := true }

inductive Node where
  | scalar (scalar : Scalar)
  | sequence (items : List Node)
  | mapping (entries : List (Node × Node))
  | alias (anchor : Nat)
  deriving Repr

structure Anchors where
  numbers : List (String × Nat) := []
  marked : List (Nat × Option Scalar) := []
  deriving Repr

namespace Anchors

/-- An anchor gets the number of names that are known before it. -/
def mark (anchors : Anchors) (name : String) (scalar : Option Scalar) : Anchors :=
  let number := anchors.numbers.length
  { numbers := (name, number) :: anchors.numbers.filter (·.1 ≠ name)
    marked := (number, scalar) :: anchors.marked }

def markAny (anchors : Anchors) (name : Option String) (scalar : Option Scalar) : Anchors :=
  match name with
  | some name => anchors.mark name scalar
  | none => anchors

def number? (anchors : Anchors) (name : String) : Option Nat := anchors.numbers.lookup name

def scalar? (anchors : Anchors) (number : Nat) : Option Scalar :=
  (anchors.marked.lookup number).join

end Anchors

structure Source where
  tokens : List Token
  anchors : Anchors := {}

abbrev TagHandles := List (String × String)

def defaultHandles : TagHandles := [("!", "!"), ("!!", "tag:yaml.org,2002:")]

def resolveTag (handles : TagHandles) (handle suffix : String) : Option String :=
  if handle.isEmpty then some suffix else (handles.lookup handle).map (· ++ suffix)

structure Properties where
  anchor : Option String := none
  tag : Option String := none

def Properties.isEmpty (p : Properties) : Bool := p.anchor.isNone && p.tag.isNone

def readProperties (handles : TagHandles) : List Token → Option (Properties × List Token)
  | .anchor name :: .tag handle suffix :: rest
  | .tag handle suffix :: .anchor name :: rest => do
    return ({ anchor := name, tag := ← resolveTag handles handle suffix }, rest)
  | .anchor name :: rest => some ({ anchor := name }, rest)
  | .tag handle suffix :: rest => do
    return ({ tag := ← resolveTag handles handle suffix }, rest)
  | tokens => some ({}, tokens)

inductive Place where
  | flow
  | block
  | mappingSide
  deriving DecidableEq, Repr

mutual

def readNode (handles : TagHandles) : Nat → Place → Source → Option (Node × Source)
  | 0, _, _ => none
  | _ + 1, _, ⟨.alias name :: rest, anchors⟩ => do
    return (.alias (← anchors.number? name), ⟨rest, anchors⟩)
  | fuel + 1, place, ⟨tokens, anchors⟩ => do
    let (properties, tokens) ← readProperties handles tokens
    let collection := anchors.markAny properties.anchor none
    match tokens with
    | .scalar text plain :: rest =>
      let scalar := { text, plain, tag := properties.tag.filter (· ≠ "!") }
      return (.scalar scalar, ⟨rest, anchors.markAny properties.anchor (some scalar)⟩)
    | .openSequence :: rest => do
      let (items, source) ← readFlowItems handles fuel [] ⟨rest, collection⟩
      return (.sequence items, source)
    | .openMapping :: rest => do
      let (entries, source) ← readFlowEntries handles fuel [] ⟨rest, collection⟩
      return (.mapping entries, source)
    | .blockEntry :: rest =>
      if place = .mappingSide then do
        let (items, source) ← readItems handles fuel false [] ⟨.blockEntry :: rest, collection⟩
        return (.sequence items, source)
      else emptyNode properties ⟨tokens, anchors⟩
    | .blockSequence :: rest =>
      if place = .flow then emptyNode properties ⟨tokens, anchors⟩
      else do
        let (items, source) ← readItems handles fuel true [] ⟨rest, collection⟩
        return (.sequence items, source)
    | .blockMapping :: rest =>
      if place = .flow then emptyNode properties ⟨tokens, anchors⟩
      else do
        let (entries, source) ← readEntries handles fuel [] ⟨rest, collection⟩
        return (.mapping entries, source)
    | _ => emptyNode properties ⟨tokens, anchors⟩
where
  emptyNode (properties : Properties) (source : Source) : Option (Node × Source) :=
    if properties.isEmpty then none
    else
      let scalar := { Scalar.empty with tag := properties.tag }
      some (.scalar scalar,
        { source with anchors := source.anchors.markAny properties.anchor (some scalar) })

/-- The items of a block sequence, last one first in `read`.  One that is indented has a mark at
its end, and one that is not ends where no item follows. -/
def readItems (handles : TagHandles) :
    Nat → (indented : Bool) → List Node → Source → Option (List Node × Source)
  | 0, _, _, _ => none
  | fuel + 1, indented, read, ⟨tokens, anchors⟩ =>
    match tokens with
    | .blockEntry :: rest =>
      let isMissing := match rest.head? with
        | some .blockEntry | some .blockEnd => true
        | some .key | some .value => !indented
        | _ => false
      if isMissing then
        readItems handles fuel indented (.scalar .empty :: read) ⟨rest, anchors⟩
      else do
        let (item, source) ← readNode handles fuel .block ⟨rest, anchors⟩
        readItems handles fuel indented (item :: read) source
    | .blockEnd :: rest =>
      if indented then some (read.reverse, ⟨rest, anchors⟩)
      else some (read.reverse, ⟨tokens, anchors⟩)
    | _ => if indented then none else some (read.reverse, ⟨tokens, anchors⟩)

def readSide (handles : TagHandles) : Nat → Source → Option (Node × Source)
  | 0, _ => none
  | fuel + 1, source =>
    match source.tokens.head? with
    | some .key | some .value | some .blockEnd => some (.scalar .empty, source)
    | _ => readNode handles fuel .mappingSide source

def readEntries (handles : TagHandles) :
    Nat → List (Node × Node) → Source → Option (List (Node × Node) × Source)
  | 0, _, _ => none
  | fuel + 1, read, ⟨tokens, anchors⟩ =>
    match tokens with
    | .blockEnd :: rest => some (read.reverse, ⟨rest, anchors⟩)
    | .key :: rest => do
      let (key, source) ← readSide handles fuel ⟨rest, anchors⟩
      let (value, source) ← readValue handles fuel .mappingSide source
      readEntries handles fuel ((key, value) :: read) source
    | _ => none

def readValue (handles : TagHandles) : Nat → Place → Source → Option (Node × Source)
  | 0, _, _ => none
  | fuel + 1, place, ⟨tokens, anchors⟩ =>
    match tokens with
    | .value :: rest =>
      if place = .mappingSide then readSide handles fuel ⟨rest, anchors⟩
      else
        match rest.head? with
        | some .flowEntry | some .closeMapping | some .closeSequence =>
          some (.scalar .empty, ⟨rest, anchors⟩)
        | _ => readNode handles fuel .flow ⟨rest, anchors⟩
    | _ => some (.scalar .empty, ⟨tokens, anchors⟩)

def readFlowItems (handles : TagHandles) :
    Nat → List Node → Source → Option (List Node × Source)
  | 0, _, _ => none
  | fuel + 1, read, ⟨tokens, anchors⟩ => do
    let tokens ← if read.isEmpty then some tokens else
      match tokens with
      | .closeSequence :: _ => some tokens
      | .flowEntry :: rest => some rest
      | _ => none
    match tokens with
    | .closeSequence :: rest => return (read.reverse, ⟨rest, anchors⟩)
    | .key :: rest =>
      let (key, source) ← readNode handles fuel .flow ⟨rest, anchors⟩
      let (value, source) ← readValue handles fuel .flow source
      readFlowItems handles fuel (.mapping [(key, value)] :: read) source
    | _ =>
      let (item, source) ← readNode handles fuel .flow ⟨tokens, anchors⟩
      readFlowItems handles fuel (item :: read) source

def readFlowKey (handles : TagHandles) : Nat → Source → Option (Node × Source)
  | 0, _ => none
  | fuel + 1, source =>
    match source.tokens.head? with
    | some .value | some .flowEntry | some .closeMapping => some (.scalar .empty, source)
    | _ => readNode handles fuel .flow source

def readFlowEntries (handles : TagHandles) :
    Nat → List (Node × Node) → Source → Option (List (Node × Node) × Source)
  | 0, _, _ => none
  | fuel + 1, read, ⟨tokens, anchors⟩ => do
    let tokens ← if read.isEmpty then some tokens else
      match tokens with
      | .closeMapping :: _ => some tokens
      | .flowEntry :: rest => some rest
      | _ => none
    match tokens with
    | .closeMapping :: rest => return (read.reverse, ⟨rest, anchors⟩)
    | .key :: rest =>
      let (key, source) ← readFlowKey handles fuel ⟨rest, anchors⟩
      let (value, source) ← readValue handles fuel .flow source
      readFlowEntries handles fuel ((key, value) :: read) source
    | _ =>
      let (key, source) ← readNode handles fuel .flow ⟨tokens, anchors⟩
      readFlowEntries handles fuel ((key, .scalar .empty) :: read) source

end

structure Document where
  root : Node
  anchors : Anchors
  deriving Repr

def readDirectives (handles : TagHandles) (versioned : Bool) :
    List Token → Option (TagHandles × List Token)
  | .versionDirective major minor :: rest =>
    if versioned || major ≠ 1 || (minor ≠ 1 && minor ≠ 2) then none
    else readDirectives handles true rest
  | .tagDirective handle start :: rest =>
    if (handles.lookup handle).isSome then none
    else readDirectives ((handle, start) :: handles) versioned rest
  | tokens => some (handles, tokens)

def readRoot (handles : TagHandles) (marked : Bool) (tokens : List Token) :
    Option (Node × Source) :=
  let source : Source := { tokens }
  match marked, tokens.head? with
  | true, none | true, some .documentStart | true, some .documentEnd
  | true, some (.versionDirective ..) | true, some (.tagDirective ..) =>
    some (.scalar .empty, source)
  | _, _ => readNode (handles ++ defaultHandles) (3 * tokens.length + 3) .block source

/-- The only document of a text: none at all if the text holds no token, and an error if it holds
more than one. -/
def readDocument (tokens : List Token) : Option (Option Document) :=
  match tokens with
  | [] => some none
  | _ => do
    let (handles, rest) ← readDirectives [] false tokens
    let marked := rest.head? = some .documentStart
    if !marked && rest.length < tokens.length then none
    else
      let (root, source) ← readRoot handles marked (if marked then rest.tail else rest)
      if source.tokens.all (· = .documentEnd) then return some ⟨root, source.anchors⟩ else none

def parse (text : String) : Option (Option Document) := (tokens? text).bind readDocument

end Dialogue.Yaml
