import Dialogue.RequestScope

namespace Dialogue

inductive Level where
  | trace
  | debug
  | warn
  deriving DecidableEq, Repr

def Level.name : Level → String
  | .trace => "TRACE"
  | .debug => "DEBUG"
  | .warn => "WARN"

inductive Event where
  | normalizing (model : String) (target : Target) (family : ModelFamily)
  | noConversation
  | stageSkipped (stage : String)
  | renamedFields (renamed : Nat)
  | filledRoles (filled : Nat)
  | replacedLastTurn (bytes : Nat)
  | skippedCalls (malformed : Nat)
  | linkedIds (generated linked unmatched : Nat)
  | markedSignatures (marked : Nat)
  | droppedTurn
  | repairedResponse
  | replacedResponse
  | droppedResponses (dropped : Nat)
  | groupedResponses (turnsBefore turnsAfter groups : Nat)
  | attachedSettings (threshold : Threshold)
  deriving DecidableEq, Repr

namespace Event

def level : Event → Level
  | .stageSkipped _ => .trace
  | .skippedCalls _ | .droppedTurn | .repairedResponse | .replacedResponse
  | .droppedResponses _ => .warn
  | _ => .debug

def message : Event → String
  | .normalizing .. => "Normalizing request"
  | .noConversation => "No conversation, applying safety defaults only"
  | .stageSkipped _ => "Stage skipped"
  | .renamedFields _ => "Renamed schema fields"
  | .filledRoles _ => "Filled missing turn roles"
  | .replacedLastTurn _ => "Rewrote trailing prefill turn"
  | .skippedCalls _ => "Skipped functionCall parts that are not objects"
  | .linkedIds .. => "Linked tool call ids"
  | .markedSignatures _ => "Marked thought signatures for skip"
  | .droppedTurn => "Dropping conversation turn that is not an object"
  | .repairedResponse => "Malformed function response, using fallback"
  | .replacedResponse => "Function response is not an object, using fallback"
  | .droppedResponses _ => "Dropping function responses with no open call turn"
  | .groupedResponses .. => "Grouped function responses"
  | .attachedSettings _ => "Attached default safety settings"

def namesRequest : Event → Bool
  | .droppedTurn | .repairedResponse | .replacedResponse | .droppedResponses _ => false
  | _ => true

def details : Event → List (String × String)
  | .normalizing model target family =>
    [("model", model), ("target", target.name), ("family", family.name)]
  | .stageSkipped stage => [("stage", stage)]
  | .renamedFields renamed => [("renamed", toString renamed)]
  | .filledRoles filled => [("filled", toString filled)]
  | .replacedLastTurn bytes => [("chars", toString bytes)]
  | .skippedCalls malformed => [("malformed", toString malformed)]
  | .linkedIds generated linked unmatched =>
    [("generated", toString generated), ("linked", toString linked),
      ("unmatched", toString unmatched)]
  | .markedSignatures marked => [("marked", toString marked)]
  | .droppedResponses dropped => [("dropped", toString dropped)]
  | .groupedResponses turnsBefore turnsAfter groups =>
    [("turns_in", toString turnsBefore), ("turns_out", toString turnsAfter),
      ("groups", toString groups)]
  | .attachedSettings threshold => [("threshold", threshold.name)]
  | .noConversation | .droppedTurn | .repairedResponse | .replacedResponse => []

def fields (requestId : String) (event : Event) : List (String × String) :=
  (if event.namesRequest then [("request_id", requestId)] else []) ++ event.details

end Event

end Dialogue
