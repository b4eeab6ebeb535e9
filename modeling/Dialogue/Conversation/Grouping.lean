import Dialogue.Event
import Dialogue.Json.Written
import Dialogue.Turn

/-!
Grouping the responses to a turn's calls into one turn.

The turns are walked once.  A turn of the model that makes calls opens a group, and responses wait
in a queue.  When responses arrive, the newest group that the queue can fill takes its share from
the front; at the end the groups that are left are tried oldest first.
-/

namespace Dialogue.Conversation

def textResult (text : String) : Json := .object [("result", .string text)]

/-- A response part that can be sent on: `response` is an object or is missing. -/
def repairResponse (part : Json) : Json :=
  match part.field? "functionResponse" with
  | none => part
  | some (.object fields) =>
    match Members.get? "response" fields with
    | none | some (.object _) => part
    | some result =>
      let name := ((Members.get? "name" fields).map Json.plainText).getD ""
      let id := (Part.usableId? fields).toList.map ("id", ·)
      .object [("functionResponse", .object
        ([("name", .string name), ("response", textResult result.plainText)] ++ id))]
  | some other =>
    .object [("functionResponse", .object
      [("name", .string "unknown"), ("response", textResult other.plainText)])]

def repairEvent? (part : Json) : Option Event :=
  match part.field? "functionResponse" with
  | none => none
  | some (.object fields) =>
    match Members.get? "response" fields with
    | none | some (.object _) => none
    | some _ => some .repairedResponse
  | some _ => some .replacedResponse

def groupTurn (responses : List Json) : Json :=
  .object [("parts", .array responses), ("role", .string "function")]

structure Grouper where
  output : List Json := []
  /-- How many responses each open group needs, oldest group first. -/
  pending : List Nat := []
  waiting : List Json := []
  groups : Nat := 0
  events : List Event := []
  deriving Repr

namespace Grouper

def emit (g : Grouper) (needed : Nat) : Grouper :=
  let taken := g.waiting.take needed
  let g := { g with
    waiting := g.waiting.drop needed
    events := g.events ++ taken.filterMap repairEvent? }
  if taken.isEmpty then g
  else { g with
    output := g.output ++ [groupTurn (taken.map repairResponse)]
    groups := g.groups + 1 }

def takeNewest? (there : Nat) : List Nat → Option (Nat × List Nat)
  | [] => none
  | needed :: rest =>
    match takeNewest? there rest with
    | some (newest, others) => some (newest, needed :: others)
    | none => if needed ≤ there then some (needed, rest) else none

def settleNewest (g : Grouper) : Grouper :=
  match takeNewest? g.waiting.length g.pending with
  | some (needed, others) => emit { g with pending := others } needed
  | none => g

def pushPlain (g : Grouper) (turn : Json) : Grouper :=
  { g with
    output := g.output ++ [turn]
    pending := if Turn.openedCalls turn = 0 then g.pending
      else g.pending ++ [Turn.openedCalls turn] }

/-- Takes the next turn.  Its responses join the queue; what else it holds stays in a turn of its
own. -/
def push (g : Grouper) (turn : Json) : Grouper :=
  if !turn.isObject then { g with events := g.events ++ [.droppedTurn] }
  else if !Turn.has .functionResponse turn then pushPlain g turn
  else
    let responses := (Turn.parts turn).filter Part.isResponse
    let others := (Turn.parts turn).filter (!Part.isResponse ·)
    -- However many groups could be filled now, a turn closes one at most.
    let g := settleNewest { g with waiting := g.waiting ++ responses }
    if others.isEmpty then g else pushPlain g (Turn.withParts turn others)

def settle (g : Grouper) (needed : Nat) : Grouper :=
  if needed ≤ g.waiting.length then emit g needed else g

/-- Closes all groups, oldest first; those that the queue cannot fill are given up. -/
def flush (g : Grouper) : Grouper := g.pending.foldl settle { g with pending := [] }

def finish (g : Grouper) : List Json := g.flush.output

def report (g : Grouper) : List Event :=
  g.flush.events ++
    (if g.flush.waiting.isEmpty then [] else [.droppedResponses g.flush.waiting.length])

def pushAll (g : Grouper) (turns : List Json) : Grouper := turns.foldl push g

end Grouper

def groupTurns (turns : List Json) : List Json := (Grouper.pushAll {} turns).finish

end Dialogue.Conversation
