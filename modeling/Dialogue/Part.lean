import Dialogue.Json.Value

namespace Dialogue

inductive PartKind where
  | text
  | functionCall
  | functionResponse
  | thought
  | other
  deriving DecidableEq, Repr

namespace Part

def isThought (part : Json) : Bool := part.field? "thought" = some (.bool true)

/-- A call is an object under `functionCall`; anything at all under `functionResponse` is a
response. -/
def kind (part : Json) : PartKind :=
  if (part.field? "functionCall").any Json.isObject then .functionCall
  else if (part.field? "functionResponse").isSome then .functionResponse
  else if isThought part then .thought
  else if (part.field? "text").any Json.isString then .text
  else .other

def isCall (part : Json) : Bool := kind part = .functionCall

def isResponse (part : Json) : Bool := kind part = .functionResponse

def usableId? (fields : Members) : Option Json :=
  match Members.get? "id" fields with
  | none | some .null | some (.string "") => none
  | some id => some id

end Part

end Dialogue
