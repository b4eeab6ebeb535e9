import Dialogue.Proofs.Conversation.Results
import Mathlib.Algebra.GroupWithZero.Nat

namespace Dialogue

namespace IdSource

def after (ids : IdSource) (n : Nat) : IdSource := { ids with drawn := ids.drawn + n }

theorem after_after (ids : IdSource) (m n : Nat) : (ids.after m).after n = ids.after (m + n) := by
  rw [after, after, after, Nat.add_assoc]

end IdSource

namespace Conversation

def anonymousIn (role : Role) (parts : List Json) : Nat :=
  if role = .model then parts.countP (Part.isAnonymous "functionCall") else 0

def anonymousCalls (turns : List Json) : Nat :=
  (turns.map fun turn => anonymousIn (Turn.role turn) (Turn.parts turn)).sum

theorem anonymousIn_cons (role : Role) (part : Json) (rest : List Json) :
    anonymousIn role (part :: rest) = anonymousIn role [part] + anonymousIn role rest := by
  rw [anonymousIn, anonymousIn, anonymousIn]
  split
  · rw [← List.singleton_append, List.countP_append]
  · rfl

theorem anonymousCalls_cons (turn : Json) (rest : List Json) :
    anonymousCalls (turn :: rest) =
      anonymousIn (Turn.role turn) (Turn.parts turn) + anonymousCalls rest := by
  rw [anonymousCalls, List.map_cons, List.sum_cons, anonymousCalls]

theorem ids_linkCall (state : Linking) (fields : Members) :
    (linkCall state fields).1.ids =
      state.ids.after (if (Part.usableId? fields).isNone then 1 else 0) := by
  rw [linkCall]
  cases Part.usableId? fields with
  | none => rfl
  | some id => rfl

theorem ids_linkModelPart (state : Linking) (part : Json) :
    (linkModelPart state part).1.ids = state.ids.after (anonymousIn .model [part]) := by
  rw [anonymousIn, if_pos rfl, List.countP_singleton, Part.isAnonymous, linkModelPart]
  cases part.field? "functionCall" with
  | none => rfl
  | some value =>
    cases value with
    | object fields => exact ids_linkCall state fields
    | _ => rfl

theorem ids_linkReplyPart (state : Linking) (part : Json) :
    (linkReplyPart state part).1.ids = state.ids := by
  rw [linkReplyPart]
  split
  · dsimp only
    rw [linkResponse]
    split
    · rfl
    · split
      · rfl
      · rfl
  · rfl

theorem ids_linkPart (role : Role) (state : Linking) (part : Json) :
    (linkPart role state part).1.ids = state.ids.after (anonymousIn role [part]) := by
  cases role with
  | model => exact ids_linkModelPart state part
  | user => exact ids_linkReplyPart state part
  | function => exact ids_linkReplyPart state part
  | unset => rfl
  | invalid => rfl

theorem ids_linkParts (role : Role) (state : Linking) (parts : List Json) :
    (linkParts role state parts).1.ids = state.ids.after (anonymousIn role parts) := by
  induction parts generalizing state with
  | nil =>
    rw [anonymousIn, List.countP_nil, ite_self]
    rfl
  | cons part rest ih =>
    rw [linkParts, ih, ids_linkPart, IdSource.after_after, ← anonymousIn_cons]

theorem ids_linkTurn (state : Linking) (turn : Json) :
    (linkTurn state turn).1.ids =
      state.ids.after (anonymousIn (Turn.role turn) (Turn.parts turn)) := by
  rw [(linkTurn_parts state turn).1, ids_linkParts]

theorem ids_linkTurns (state : Linking) (turns : List Json) :
    (linkTurns state turns).1.ids = state.ids.after (anonymousCalls turns) := by
  induction turns generalizing state with
  | nil => rfl
  | cons turn rest ih =>
    rw [linkTurns, ih, ids_linkTurn, IdSource.after_after, ← anonymousCalls_cons]

end Conversation

end Dialogue
