import Dialogue.Turn

namespace Dialogue.Conversation

def spokenText? (part : Json) : Option String :=
  if Part.kind part = .text then (part.field? "text").bind Json.text? else none

def unfinishedText? (turn : Json) : Option String :=
  if Turn.role turn = .model ∧ Turn.has .functionCall turn = false then
    some (String.join ((Turn.parts turn).filterMap spokenText?))
  else none

def continueTurn (text : String) : Json :=
  .object [("role", .string "user"),
    ("parts", .array [.object [("text", .string ("Continue from: " ++ text))]])]

def continuation (text : String) : List Json := if text.isEmpty then [] else [continueTurn text]

def lastUnfinished? (turns : List Json) : Option String := turns.getLast?.bind unfinishedText?

def askToContinue (turns : List Json) : List Json :=
  match lastUnfinished? turns with
  | some text => turns.dropLast ++ continuation text
  | none => turns

end Dialogue.Conversation
