import Dialogue.Body.Envelope
import Dialogue.Body.Renames
import Dialogue.Conversation.Continuation
import Dialogue.Conversation.Grouping
import Dialogue.Conversation.Links
import Dialogue.Conversation.Roles
import Dialogue.Conversation.Signatures
import Dialogue.Failure

/-!
The stages that a document goes through, and plans made of them.

A stage gives the document it leaves behind even when it fails.  A plan goes on to its next stage
only when the one before did not fail, and passes over a stage that is not meant for the request.
-/

namespace Dialogue

structure Outcome where
  document : Json
  ids : IdSource
  events : List Event := []
  failure : Option DocumentError := none

namespace Outcome

def logged (events : List Event) (outcome : Outcome) : Outcome :=
  { outcome with events := events ++ outcome.events }

def andThen (outcome : Outcome) (next : IdSource → Json → Outcome) : Outcome :=
  match outcome.failure with
  | some _ => outcome
  | none => (next outcome.ids outcome.document).logged outcome.events

def result (outcome : Outcome) : Except DocumentError Json :=
  match outcome.failure with
  | some e => .error e
  | none => .ok outcome.document

end Outcome

inductive Stage where
  | envelope
  | renames
  | roles
  | continuation
  | links
  | signatures
  | grouping
  | safety
  deriving DecidableEq, Repr

namespace Stage

def all : List Stage :=
  [.envelope, .renames, .roles, .continuation, .links, .signatures, .grouping, .safety]

def name : Stage → String
  | .envelope => "envelope"
  | .renames => "schema_renames"
  | .roles => "role_fill"
  | .continuation => "prefill"
  | .links => "tool_call_ids"
  | .signatures => "thought_signatures"
  | .grouping => "grouping"
  | .safety => "safety_defaults"

def appliesTo (context : Context) : Stage → Bool
  | .envelope => context.target.envelopeKey?.isSome
  | .continuation => context.family = .claude
  | .signatures => context.family ≠ .claude
  | .grouping => context.target.needsGrouping
  | .renames | .roles | .links | .safety => true

def turns? (context : Context) (document : Json) : Option (List Json) :=
  (document.get? context.conversationPath).bind Json.items?

def withTurns (context : Context) (document : Json) (turns : List Json) : Json :=
  (document.replace? context.conversationPath (.array turns)).getD document

def logPositive (n : Nat) (event : Nat → Event) : List Event := if n = 0 then [] else [event n]

def fillRoles (context : Context) (ids : IdSource) (document : Json) : Outcome :=
  match turns? context document with
  | none => { document, ids }
  | some turns =>
    { document := withTurns context document (Conversation.fillRoles none turns)
      ids
      events := logPositive (Conversation.missingRoles turns) .filledRoles }

def askToContinue (context : Context) (ids : IdSource) (document : Json) : Outcome :=
  match turns? context document with
  | none => { document, ids }
  | some turns =>
    match Conversation.lastUnfinished? turns with
    | none => { document, ids }
    | some text =>
      { document := withTurns context document (Conversation.askToContinue turns)
        ids
        events := [.replacedLastTurn text.utf8ByteSize] }

def linkCalls (context : Context) (ids : IdSource) (document : Json) : Outcome :=
  match turns? context document with
  | none => { document, ids }
  | some turns =>
    let (state, linked) := Conversation.linkTurns { ids } turns
    { document := withTurns context document linked
      ids := state.ids
      events := logPositive state.malformed .skippedCalls ++
        [.linkedIds state.generated state.linked state.unmatched] }

def markSignatures (context : Context) (ids : IdSource) (document : Json) : Outcome :=
  match turns? context document with
  | none => { document, ids }
  | some turns =>
    { document := withTurns context document (Conversation.markTurns turns)
      ids
      events := logPositive (Conversation.countMarks turns) .markedSignatures }

def groupResponses (context : Context) (ids : IdSource) (document : Json) : Outcome :=
  match document.get? context.conversationPath with
  | none =>
    { document, ids, failure := some (.missingConversation context.conversationPath.text) }
  | some (.array turns) =>
    let grouper := Conversation.Grouper.pushAll {} turns
    { document := withTurns context document grouper.finish
      ids
      events := grouper.report ++
        [.groupedResponses turns.length grouper.finish.length grouper.flush.groups] }
  | some _ =>
    { document, ids, failure := some (.malformedConversation context.conversationPath.text) }

def renameFields (context : Context) (ids : IdSource) (document : Json) : Outcome :=
  let r := Body.renameFields context document
  match r.failure with
  | some e => { document := r.document, ids, failure := some (.blocked e) }
  | none => { document := r.document, ids, events := logPositive r.renamed .renamedFields }

def attachSettings (context : Context) (ids : IdSource) (document : Json) : Outcome :=
  let path := context.path ["safetySettings"]
  if document.has path then { document, ids }
  else
    match document.set path context.threshold.settings with
    | (document, .ok ()) => { document, ids, events := [.attachedSettings context.threshold] }
    | (document, .error e) => { document, ids, failure := some (.blocked e) }

def apply (context : Context) (ids : IdSource) (document : Json) : Stage → Outcome
  | .envelope => { document := Body.wrap context document, ids }
  | .renames => renameFields context ids document
  | .roles => fillRoles context ids document
  | .continuation => askToContinue context ids document
  | .links => linkCalls context ids document
  | .signatures => markSignatures context ids document
  | .grouping => groupResponses context ids document
  | .safety => attachSettings context ids document

end Stage

/-- A stage that someone else has written.  Unless it says otherwise, it is meant for every
request. -/
structure CustomStage where
  name : String
  appliesTo : Context → Bool := fun _ => true
  apply : Context → IdSource → Json → Outcome

inductive Plan where
  | single (stage : Stage)
  | custom (stage : CustomStage)
  | chain (plans : List Plan)

namespace Plan

def name : Plan → String
  | .single stage => stage.name
  | .custom stage => stage.name
  | .chain _ => "chain"

def appliesTo (context : Context) : Plan → Bool
  | .single stage => stage.appliesTo context
  | .custom stage => stage.appliesTo context
  | .chain _ => true

mutual

def run (context : Context) (ids : IdSource) (document : Json) : Plan → Outcome
  | .single stage => stage.apply context ids document
  | .custom stage => stage.apply context ids document
  | .chain plans => runAll context ids document plans

def runAll (context : Context) (ids : IdSource) (document : Json) : List Plan → Outcome
  | [] => { document, ids }
  | plan :: rest =>
    if plan.appliesTo context then
      (run context ids document plan).andThen fun ids document => runAll context ids document rest
    else (runAll context ids document rest).logged [.stageSkipped plan.name]

end

def ofStages (stages : List Stage) : Plan := .chain (stages.map .single)

end Plan

end Dialogue
