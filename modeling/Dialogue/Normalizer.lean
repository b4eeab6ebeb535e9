import Dialogue.Json.Reader
import Dialogue.Stage

namespace Dialogue

def Target.stages (target : Target) : List Stage :=
  (if target.envelopeKey?.isSome then [.envelope] else []) ++
    [.renames, .roles, .continuation, .links, .signatures] ++
    (if target.needsGrouping then [.grouping] else []) ++ [.safety]

structure Normalizer where
  target : Target
  project : String := ""
  threshold : Threshold := .off
  deriving DecidableEq, Repr

structure Request where
  model : String
  body : List UInt8
  stream : Bool := false

structure Answer where
  result : Except RequestError Json
  ids : IdSource
  events : List Event := []

namespace Normalizer

def context (n : Normalizer) (requestId model : String) (stream : Bool) : Context :=
  { requestId, model, target := n.target, stream, project := n.project, threshold := n.threshold }

def plan (n : Normalizer) : Plan := .ofStages n.target.stages

/-- Normalizes a document.  A body that stands alone and holds no conversation gets its safety
settings and nothing else. -/
def normalize (n : Normalizer) (context : Context) (ids : IdSource) (document : Json) : Outcome :=
  let outcome :=
    if context.target.envelopeKey?.isNone && !document.has ["contents"] then
      (Stage.safety.apply context ids document).logged [.noConversation]
    else n.plan.run context ids document
  outcome.logged [.normalizing context.model context.target context.family]

def answer (n : Normalizer) (requestId : String) (ids : IdSource) (request : Request)
    (read : Json.Reader := Json.read) : Answer :=
  match read request.body with
  | .error failure => { result := .error (.notJson failure), ids }
  | .ok document =>
    let outcome := n.normalize (n.context requestId request.model request.stream) ids document
    { result := outcome.result.mapError .document, ids := outcome.ids, events := outcome.events }

def answerAll (n : Normalizer) (requestId : String) (ids : IdSource) (requests : List Request)
    (read : Json.Reader := Json.read) : List Answer :=
  match requests with
  | [] => []
  | request :: rest =>
    let first := n.answer requestId ids request read
    first :: answerAll n requestId first.ids rest read

end Normalizer

end Dialogue
