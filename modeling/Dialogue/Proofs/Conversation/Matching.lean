import Dialogue.Proofs.Conversation.Sendable
import Mathlib.Logic.Function.Basic

namespace Dialogue

namespace Conversation

/-- The calls to each function that wait for a response, oldest first, and the identifiers that are
left. -/
structure Matcher where
  waiting : String → List Json := fun _ => []
  ids : IdSource

namespace Matcher

def draw : StateM Matcher Json :=
  modifyGet fun m => (.string m.ids.next, { m with ids := m.ids.advance })

def enqueue (name : String) (id : Json) : StateM Matcher Unit :=
  modify fun m => { m with waiting := Function.update m.waiting name (m.waiting name ++ [id]) }

def dequeue (name : String) : StateM Matcher (Option Json) :=
  modifyGet fun m =>
    ((m.waiting name).head?,
      { m with waiting := Function.update m.waiting name (m.waiting name).tail })

def nameOf (fields : Members) : String :=
  match Members.get? "name" fields with
  | some (.string name) => name
  | none | some .null => ""
  | some other => other.compact

def idOf (fields : Members) : Option Json :=
  (Members.get? "id" fields).filter fun id => id ≠ .null ∧ id ≠ .string ""

def matchCall (call : Members) : StateM Matcher Members := do
  match idOf call with
  | some id =>
    enqueue (nameOf call) id
    return call
  | none =>
    let id ← draw
    enqueue (nameOf call) id
    return Members.put "id" id call

def matchResponse (response : Members) : StateM Matcher Members := do
  match idOf response with
  | some _ => return response
  | none =>
    match ← dequeue (nameOf response) with
    | some id => return Members.put "id" id response
    | none => return response

def inObject (key : String) (visit : Members → StateM Matcher Members) (part : Json) :
    StateM Matcher Json :=
  match part.field? key with
  | some (.object fields) => return part.putField key (.object (← visit fields))
  | _ => return part

def matchPart (turn part : Json) : StateM Matcher Json :=
  if turn.field? "role" = some (.string "model") then inObject "functionCall" matchCall part
  else if turn.field? "role" = some (.string "user") ∨
      turn.field? "role" = some (.string "function") then
    inObject "functionResponse" matchResponse part
  else return part

def matchTurn (turn : Json) : StateM Matcher Json :=
  match turn.field? "parts" with
  | some (.array parts) => return turn.putField "parts" (.array (← parts.mapM (matchPart turn)))
  | _ => return turn

def matchTurns (turns : List Json) : StateM Matcher (List Json) := turns.mapM matchTurn

variable {m : Matcher} {name : String}

theorem run_dequeue_nil (h : m.waiting name = []) : (dequeue name).run m = (none, m) := by
  change ((m.waiting name).head?,
    ({ m with waiting := Function.update m.waiting name (m.waiting name).tail } : Matcher)) = _
  rw [h, List.tail_nil, Function.update_eq_self_iff.2 h.symm]
  rfl

theorem run_dequeue_cons {id : Json} {rest : List Json} (h : m.waiting name = id :: rest) :
    (dequeue name).run m =
      (some id, { m with waiting := Function.update m.waiting name rest }) := by
  change ((m.waiting name).head?,
    ({ m with waiting := Function.update m.waiting name (m.waiting name).tail } : Matcher)) = _
  rw [h, List.tail_cons]
  rfl

end Matcher

open Matcher (nameOf idOf matchCall matchResponse inObject matchPart matchTurn matchTurns)

namespace CallRegistry

variable {registry : CallRegistry}

theorem unanswered_record_eq (h : registry.Sound) (name : String) (id : Json) :
    (registry.record name id).unanswered =
      Function.update registry.unanswered name (registry.unanswered name ++ [id]) := by
  funext other
  rw [unanswered_record h]
  by_cases hn : name = other
  · subst hn
    rw [if_pos rfl, Function.update_self]
  · rw [if_neg hn, List.append_nil, Function.update_of_ne (Ne.symm hn)]

theorem unanswered_claim_eq {name : String} {id : Json} {rest : List Json}
    (hq : registry.unanswered name = id :: rest) :
    (registry.claim name).2.unanswered = Function.update registry.unanswered name rest := by
  funext other
  rw [(claim_of_unanswered hq).2]
  by_cases hn : name = other
  · subst hn
    rw [if_pos rfl, Function.update_self]
  · rw [if_neg hn, Function.update_of_ne (Ne.symm hn)]

end CallRegistry

def Linking.matcher (state : Linking) : Matcher := ⟨state.registry.unanswered, state.ids⟩

/-- What linking does is what the matcher does. -/
structure Follows {α : Type} (state : Linking) (linked : Linking × α) (step : StateM Matcher α) :
    Prop where
  sound : linked.1.registry.Sound
  run : step.run state.matcher = (linked.2, linked.1.matcher)

namespace Follows

variable {α β : Type} {state : Linking} {linked : Linking × α} {step : StateM Matcher α}

theorem pure (h : state.registry.Sound) (a : α) : Follows state (state, a) (Pure.pure a) := ⟨h, rfl⟩

theorem map (h : Follows state linked step) (f : α → β) :
    Follows state (linked.1, f linked.2) (f <$> step) := by
  refine ⟨h.sound, ?_⟩
  rw [StateT.run_map, h.run]
  rfl

theorem mapM (walk : Linking → List Json → Linking × List Json)
    {link : Linking → Json → Linking × Json} {step : Json → StateM Matcher Json}
    (hnil : ∀ state, walk state [] = (state, []))
    (hcons : ∀ state item rest, walk state (item :: rest) =
      ((walk (link state item).1 rest).1, (link state item).2 :: (walk (link state item).1 rest).2))
    (h : ∀ state item, state.registry.Sound → Follows state (link state item) (step item))
    (hs : state.registry.Sound) (items : List Json) :
    Follows state (walk state items) (items.mapM step) := by
  induction items generalizing state with
  | nil =>
    rw [hnil]
    exact .pure hs []
  | cons item rest ih =>
    have hfirst := h state item hs
    have hrest := (ih hfirst.sound).map ((link state item).2 :: ·)
    rw [hcons]
    refine ⟨hrest.sound, ?_⟩
    rw [List.mapM_cons, StateT.run_bind, hfirst.run]
    exact hrest.run

end Follows

theorem functionName_eq_nameOf (fields : Members) : functionName fields = nameOf fields := by
  rw [functionName, nameOf]
  cases Members.get? "name" fields with
  | none => rfl
  | some name => cases name <;> rfl

theorem usableId?_eq_idOf (fields : Members) : Part.usableId? fields = idOf fields := by
  apply Option.ext
  intro id
  rw [Part.usableId?_eq_some, idOf, Option.filter_eq_some_iff, decide_eq_true_iff, Part.IsUsable]

variable {state : Linking} (hs : state.registry.Sound)

include hs

theorem linkCall_follows (call : Members) :
    Follows state (linkCall state call) (matchCall call) := by
  rw [linkCall, matchCall, usableId?_eq_idOf, functionName_eq_nameOf]
  cases idOf call with
  | some id =>
    refine ⟨hs.record _ _, ?_⟩
    dsimp only
    rw [Linking.matcher, Linking.matcher, CallRegistry.unanswered_record_eq hs]
    rfl
  | none =>
    refine ⟨hs.record _ _, ?_⟩
    dsimp only
    rw [Linking.matcher, Linking.matcher, CallRegistry.unanswered_record_eq hs]
    rfl

theorem linkResponse_follows (response : Members) :
    Follows state (linkResponse state response) (matchResponse response) := by
  rw [linkResponse, matchResponse, usableId?_eq_idOf, functionName_eq_nameOf]
  cases idOf response with
  | some id => exact .pure hs response
  | none =>
    dsimp only
    cases hq : state.registry.unanswered (nameOf response) with
    | nil =>
      rw [CallRegistry.claim_of_unanswered_nil hq]
      refine ⟨hs, ?_⟩
      rw [StateT.run_bind, Matcher.run_dequeue_nil hq]
      rfl
    | cons id rest =>
      have hsound := hs.claim (nameOf response)
      have hid := (CallRegistry.claim_of_unanswered hq).1
      have hrest := CallRegistry.unanswered_claim_eq hq
      generalize state.registry.claim (nameOf response) = claimed at hsound hid hrest
      obtain ⟨_, registry⟩ := claimed
      cases hid
      refine ⟨hsound, ?_⟩
      rw [StateT.run_bind, Matcher.run_dequeue_cons hq, Linking.matcher, Linking.matcher, hrest]
      rfl

theorem linkModelPart_follows (part : Json) :
    Follows state (linkModelPart state part) (inObject "functionCall" matchCall part) := by
  rw [linkModelPart, inObject]
  cases part.field? "functionCall" with
  | none => exact .pure hs part
  | some call =>
    cases call with
    | object fields =>
      exact (linkCall_follows hs fields).map fun fields =>
        part.putField "functionCall" (.object fields)
    | _ => exact ⟨hs, rfl⟩

theorem linkReplyPart_follows (part : Json) :
    Follows state (linkReplyPart state part) (inObject "functionResponse" matchResponse part) := by
  rw [linkReplyPart, inObject]
  cases part.field? "functionResponse" with
  | none => exact .pure hs part
  | some response =>
    cases response with
    | object fields =>
      exact (linkResponse_follows hs fields).map fun fields =>
        part.putField "functionResponse" (.object fields)
    | _ => exact .pure hs part

theorem linkPart_follows (turn part : Json) :
    Follows state (linkPart (Turn.role turn) state part) (matchPart turn part) := by
  have hmodel : Turn.role turn = .model ↔ _ := Turn.role_eq_iff rfl
  have huser : Turn.role turn = .user ↔ _ := Turn.role_eq_iff rfl
  have hfunction : Turn.role turn = .function ↔ _ := Turn.role_eq_iff rfl
  simp only [matchPart, ← hmodel, ← huser, ← hfunction]
  cases Turn.role turn with
  | model => exact linkModelPart_follows hs part
  | user => exact linkReplyPart_follows hs part
  | function => exact linkReplyPart_follows hs part
  | unset => exact .pure hs part
  | invalid => exact .pure hs part

theorem linkTurn_follows (turn : Json) : Follows state (linkTurn state turn) (matchTurn turn) := by
  rw [linkTurn, matchTurn, Turn.parts?]
  cases turn.field? "parts" with
  | none => exact .pure hs turn
  | some parts =>
    cases parts with
    | array parts =>
      have hparts := Follows.mapM (linkParts (Turn.role turn)) (fun _ => rfl) (fun _ _ _ => rfl)
        (fun _ part hs => linkPart_follows hs turn part) hs parts
      exact hparts.map fun parts => turn.putField "parts" (.array parts)
    | _ => exact .pure hs turn

theorem linkTurns_follows (turns : List Json) :
    Follows state (linkTurns state turns) (matchTurns turns) :=
  .mapM linkTurns (fun _ => rfl) (fun _ _ _ => rfl) (fun _ turn hs => linkTurn_follows hs turn)
    hs turns

omit hs in
example :
    (linkTurns { ids := .counting }
      [.object [("role", .string "model"), ("parts", .array [
          .object [("functionCall", .object [("id", .null), ("name", .bool true)])]])],
        .object [("role", .string "user"), ("parts", .array [
          .object [("functionResponse", .object [("name", .string "true")])],
          .object [("functionResponse", .object [("name", .bool true)])]])]]).2 =
      [.object [("role", .string "model"), ("parts", .array [
          .object [("functionCall", .object [("id", .string IdSource.counting.next),
            ("name", .bool true)])]])],
        .object [("role", .string "user"), ("parts", .array [
          .object [("functionResponse", .object [("name", .string "true"),
            ("id", .string IdSource.counting.next)])],
          .object [("functionResponse", .object [("name", .bool true)])]])]] := by decide

end Conversation

open Conversation

/-- Linking never fails, and leaves a document without an array of turns as it is.  In any other
the turns become what matching with queues makes of them, which leaves the same identifiers; and no
call of the model is then without one. -/
theorem Stage.links_matched (context : Context) (ids : IdSource) (document : Json) :
    (Stage.links.apply context ids document).failure = none ∧
    ((∀ turns, document.get? context.conversationPath ≠ some (.array turns)) →
      (Stage.links.apply context ids document).document = document ∧
      (Stage.links.apply context ids document).ids = ids) ∧
    ∀ turns, document.get? context.conversationPath = some (.array turns) →
      ∃ matched after, (Matcher.matchTurns turns).run { ids } = (matched, after) ∧
        document.replace? context.conversationPath (.array matched) =
          some (Stage.links.apply context ids document).document ∧
        (Stage.links.apply context ids document).ids = after.ids ∧
        (ids.Nonempty → ∀ turn ∈ matched, CallsIdentified turn) := by
  obtain ⟨hfailure, hids, hdocument⟩ := Stage.links_yields context ids document
  refine ⟨hfailure, fun hn => ?_, fun turns ht => ?_⟩
  · rw [← Stage.turns?_eq_none_iff] at hn
    rw [hdocument, hids, Stage.linkedIds, hn]
    exact ⟨Stage.onTurns_of_turns?_eq_none hn _, rfl⟩
  · rw [← Stage.turns?_eq_some_iff] at ht
    have hfollows : Follows { ids } (linkTurns { ids } turns) (Matcher.matchTurns turns) :=
      linkTurns_follows CallRegistry.sound_initial turns
    refine ⟨_, _, hfollows.run, ?_, ?_, fun hn => ?_⟩
    · rw [hdocument]
      exact Stage.replace?_turns ht (Stage.linked ids)
    · rw [hids, Stage.linkedIds, ht]
      rfl
    · exact callsIdentified_linked hn turns

end Dialogue
