import Dialogue.Conversation.CallRegistry
import Dialogue.IdSource
import Dialogue.Json.Written
import Dialogue.Turn

namespace Dialogue.Conversation

/-- The name of the function: a text as it is, nothing for a missing name or `null`, and the
compact text of anything else. -/
def functionName (fields : Members) : String :=
  match Members.get? "name" fields with
  | none | some .null => ""
  | some name => name.plainText

structure Linking where
  registry : CallRegistry := {}
  ids : IdSource
  generated : Nat := 0
  linked : Nat := 0
  unmatched : Nat := 0
  malformed : Nat := 0

def linkCall (state : Linking) (fields : Members) : Linking × Members :=
  match Part.usableId? fields with
  | some id => ({ state with registry := state.registry.record (functionName fields) id }, fields)
  | none =>
    let id := Json.string state.ids.next
    ({ state with
        registry := state.registry.record (functionName fields) id
        ids := state.ids.advance
        generated := state.generated + 1 },
      Members.put "id" id fields)

def linkResponse (state : Linking) (fields : Members) : Linking × Members :=
  match Part.usableId? fields with
  | some _ => (state, fields)
  | none =>
    match state.registry.claim (functionName fields) with
    | (some id, registry) =>
      ({ state with registry := registry, linked := state.linked + 1 }, Members.put "id" id fields)
    | (none, _) => ({ state with unmatched := state.unmatched + 1 }, fields)

def linkModelPart (state : Linking) (part : Json) : Linking × Json :=
  match part.field? "functionCall" with
  | none => (state, part)
  | some (.object fields) =>
    let step := linkCall state fields
    (step.1, part.putField "functionCall" (.object step.2))
  | some _ => ({ state with malformed := state.malformed + 1 }, part)

def linkReplyPart (state : Linking) (part : Json) : Linking × Json :=
  match part.field? "functionResponse" with
  | some (.object fields) =>
    let step := linkResponse state fields
    (step.1, part.putField "functionResponse" (.object step.2))
  | _ => (state, part)

def linkPart (role : Role) (state : Linking) (part : Json) : Linking × Json :=
  match role with
  | .model => linkModelPart state part
  | .user | .function => linkReplyPart state part
  | .unset | .invalid => (state, part)

def linkParts (role : Role) (state : Linking) : List Json → Linking × List Json
  | [] => (state, [])
  | part :: rest =>
    let step := linkPart role state part
    let tail := linkParts role step.1 rest
    (tail.1, step.2 :: tail.2)

def linkTurn (state : Linking) (turn : Json) : Linking × Json :=
  match Turn.parts? turn with
  | none => (state, turn)
  | some parts =>
    let step := linkParts (Turn.role turn) state parts
    (step.1, Turn.withParts turn step.2)

def linkTurns (state : Linking) : List Json → Linking × List Json
  | [] => (state, [])
  | turn :: rest =>
    let step := linkTurn state turn
    let tail := linkTurns step.1 rest
    (tail.1, step.2 :: tail.2)

@[simp] theorem length_linkTurns (state : Linking) (turns : List Json) :
    (linkTurns state turns).2.length = turns.length := by
  induction turns generalizing state with
  | nil => rfl
  | cons turn rest ih => simp [linkTurns, ih]

end Dialogue.Conversation
