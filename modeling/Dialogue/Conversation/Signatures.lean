import Dialogue.Turn

namespace Dialogue.Conversation

def signatureKey : String := "thoughtSignature"

def skipMark : String := "skip_thought_signature_validator"

def shortestSignature : Nat := 50

def hasUsableSignature (part : Json) : Bool :=
  match part.field? signatureKey with
  | some (.string signature) => shortestSignature ≤ signature.utf8ByteSize
  | _ => false

/-- Reasoning never keeps its signature, and a call keeps a usable one. -/
def needsMark (part : Json) : Bool :=
  Part.isThought part || (Part.isCall part && !hasUsableSignature part)

def markPart (part : Json) : Json :=
  if needsMark part then part.putField signatureKey (.string skipMark) else part

def markTurn (turn : Json) : Json :=
  match Turn.role turn, Turn.parts? turn with
  | .model, some parts => Turn.withParts turn (parts.map markPart)
  | _, _ => turn

def markTurns (turns : List Json) : List Json := turns.map markTurn

def marksIn (turn : Json) : Nat :=
  if Turn.role turn = .model then (Turn.parts turn).countP needsMark else 0

def countMarks : List Json → Nat
  | [] => 0
  | turn :: rest => marksIn turn + countMarks rest

end Dialogue.Conversation
