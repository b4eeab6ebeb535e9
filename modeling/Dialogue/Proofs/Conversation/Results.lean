import Dialogue.Proofs.Conversation.Roles
import Dialogue.Proofs.Conversation.Links
import Dialogue.Proofs.Delivery

namespace Dialogue

namespace Part

def isResult (part : Json) : Bool := (part.field? "functionResponse").any Json.isObject

theorem isResult_iff {part : Json} :
    isResult part = true ↔ ∃ fields, part.field? "functionResponse" = some (.object fields) := by
  rw [isResult]
  cases part.field? "functionResponse" with
  | none => simp
  | some value => cases value <;> simp [Json.isObject]

def identifiedKey : Role → String
  | .model => "functionCall"
  | _ => "functionResponse"

def isAnonymous (key : String) (part : Json) : Bool :=
  match part.field? key with
  | some (.object fields) => (usableId? fields).isNone
  | _ => false

theorem isAnonymous_of_field? {key : String} {part : Json} {fields : Members}
    (hf : part.field? key = some (.object fields)) (hn : usableId? fields = none) :
    isAnonymous key part = true := by
  rw [isAnonymous, hf]
  exact Option.isNone_iff_eq_none.2 hn

/-- What is sent is the part as it was, but that an identifier may have been added to the call or
the result in it. -/
inductive SameButId : Json → Json → Prop where
  | kept {part : Json} : SameButId part part
  | given {part : Json} {key : String} {fields : Members} {id : Json}
      (hk : key = "functionCall" ∨ key = "functionResponse")
      (hf : part.field? key = some (.object fields)) (hn : usableId? fields = none) :
      SameButId part (part.putField key (.object (Members.put "id" id fields)))

variable {part sent : Json}

theorem SameButId.field? (h : SameButId part sent) {key : String} {fields : Members}
    (hf : part.field? key = some (.object fields)) :
    ∃ fields', sent.field? key = some (.object fields') ∧
      (fields' = fields ∨ ∃ id, fields' = Members.put "id" id fields) := by
  cases h with
  | kept => exact ⟨fields, hf, .inl rfl⟩
  | @given key' fields' id _ hg _ =>
    by_cases he : key = key'
    · rw [← he, hf] at hg
      cases hg
      rw [← he, Json.field?_putField_self (Json.isObject_of_field? hf)]
      exact ⟨_, rfl, .inr ⟨id, rfl⟩⟩
    · rw [Json.field?_putField_of_ne he]
      exact ⟨fields, hf, .inl rfl⟩

theorem SameButId.field?_of_sent (h : SameButId part sent) {key : String} {fields : Members}
    (hf : sent.field? key = some (.object fields)) :
    ∃ fields', part.field? key = some (.object fields') := by
  cases h with
  | kept => exact ⟨fields, hf⟩
  | @given key' fields' id _ hg _ =>
    by_cases he : key = key'
    · exact ⟨fields', he ▸ hg⟩
    · rw [Json.field?_putField_of_ne he] at hf
      exact ⟨fields, hf⟩

theorem SameButId.isResult_iff (h : SameButId part sent) : isResult part ↔ isResult sent := by
  rw [Part.isResult_iff, Part.isResult_iff]
  constructor
  · rintro ⟨fields, hf⟩
    obtain ⟨fields', hf', -⟩ := h.field? hf
    exact ⟨fields', hf'⟩
  · rintro ⟨fields, hf⟩
    exact h.field?_of_sent hf

theorem kind_putField {key : String} {fields : Members}
    (hk : key = "functionCall" ∨ key = "functionResponse")
    (hf : part.field? key = some (.object fields)) (fields' : Members) :
    kind (part.putField key (.object fields')) = kind part := by
  have ho := Json.isObject_of_field? hf
  rcases hk with rfl | rfl
  · rw [kind_of_functionCall hf, kind_of_functionCall (Json.field?_putField_self ho ..)]
  · rw [kind, kind, Json.field?_putField_of_ne (by decide), Json.field?_putField_self ho, hf]
    rfl

theorem SameButId.kind (h : SameButId part sent) : Part.kind sent = Part.kind part := by
  cases h with
  | kept => rfl
  | given hk hf _ => exact kind_putField hk hf _

end Part

namespace Conversation

open Dialogue.Part (SameButId)

def results (turns : List Json) : List Json := (turns.flatMap Turn.parts).filter Part.isResult

theorem results_singleton (turn : Json) :
    results [turn] = (Turn.parts turn).filter Part.isResult := by
  rw [results, List.flatMap_singleton]

theorem results_append (front back : List Json) :
    results (front ++ back) = results front ++ results back := by
  rw [results, List.flatMap_append, List.filter_append, results, results]

theorem results_congr {turns sent : List Json}
    (h : List.Forall₂ SameButId (turns.flatMap Turn.parts) (sent.flatMap Turn.parts)) :
    List.Forall₂ SameButId (results turns) (results sent) :=
  List.rel_filter (fun _ _ h => h.isResult_iff) h

theorem linkPart_eq_or_given (role : Role) (state : Linking) (part : Json) :
    (linkPart role state part).2 = part ∨
      ∃ fields id, part.field? (Part.identifiedKey role) = some (.object fields) ∧
        Part.usableId? fields = none ∧
        (linkPart role state part).2 =
          part.putField (Part.identifiedKey role) (.object (Members.put "id" id fields)) := by
  have hreply : (linkReplyPart state part).2 = part ∨
      ∃ fields id, part.field? "functionResponse" = some (.object fields) ∧
        Part.usableId? fields = none ∧
        (linkReplyPart state part).2 =
          part.putField "functionResponse" (.object (Members.put "id" id fields)) := by
    rw [linkReplyPart]
    split
    · next fields hf =>
      dsimp only
      rw [linkResponse]
      split
      · exact .inl (Json.putField_of_field? hf)
      · next hn =>
        split
        · exact .inr ⟨fields, _, hf, hn, rfl⟩
        · exact .inl (Json.putField_of_field? hf)
    · exact .inl rfl
  cases role with
  | model =>
    rw [linkPart, linkModelPart]
    split
    · exact .inl rfl
    · next fields hf =>
      dsimp only
      rw [linkCall]
      split
      · exact .inl (Json.putField_of_field? hf)
      · next hn => exact .inr ⟨fields, _, hf, hn, rfl⟩
    · exact .inl rfl
  | user => exact hreply
  | function => exact hreply
  | unset => exact .inl rfl
  | invalid => exact .inl rfl

theorem sameButId_linkPart (role : Role) (state : Linking) (part : Json) :
    SameButId part (linkPart role state part).2 := by
  rcases linkPart_eq_or_given role state part with h | ⟨fields, id, hf, hn, h⟩
  · rw [h]
    exact .kept
  · rw [h]
    refine .given ?_ hf hn
    cases role <;> simp [Part.identifiedKey]

theorem sameButId_linkParts (role : Role) (state : Linking) (parts : List Json) :
    List.Forall₂ SameButId parts (linkParts role state parts).2 := by
  induction parts generalizing state with
  | nil => exact .nil
  | cons part rest ih => exact .cons (sameButId_linkPart role state part) (ih _)

theorem linkTurn_parts (state : Linking) (turn : Json) :
    (linkTurn state turn).1 = (linkParts (Turn.role turn) state (Turn.parts turn)).1 ∧
      Turn.parts (linkTurn state turn).2 =
        (linkParts (Turn.role turn) state (Turn.parts turn)).2 := by
  rw [linkTurn]
  split
  · next hp =>
    rw [Turn.parts, hp]
    exact ⟨rfl, rfl⟩
  · next parts hp =>
    rw [Turn.parts_of_parts? hp, Turn.parts_withParts (Turn.isObject_of_parts? hp)]
    exact ⟨rfl, rfl⟩

theorem sameButId_linkTurns (state : Linking) (turns : List Json) :
    List.Forall₂ SameButId (turns.flatMap Turn.parts)
      ((linkTurns state turns).2.flatMap Turn.parts) := by
  induction turns generalizing state with
  | nil => exact .nil
  | cons turn rest ih =>
    rw [List.flatMap_cons, linkTurns, List.flatMap_cons, (linkTurn_parts state turn).2]
    exact List.rel_append (sameButId_linkParts ..) (ih _)

theorem flatMap_parts_fillRoles (previous : Option Role) (turns : List Json) :
    (fillRoles previous turns).flatMap Turn.parts = turns.flatMap Turn.parts := by
  induction turns generalizing previous with
  | nil => rfl
  | cons turn rest ih =>
    rw [fillRoles]
    split
    · rw [List.flatMap_cons, List.flatMap_cons, ih]
    · split
      · rw [List.flatMap_cons, List.flatMap_cons, ih, parts_withRole]
      · rw [List.flatMap_cons, List.flatMap_cons, ih]

variable {turns front : List Json} {turn : Json}

theorem results_continuation (text : String) : results (continuation text) = [] := by
  rw [continuation]
  split <;> rfl

theorem isSome_unfinishedText? :
    (unfinishedText? turn).isSome ↔
      Turn.role turn = .model ∧ Turn.has .functionCall turn = false := by
  rw [unfinishedText?]
  split <;> simp [*]

theorem results_askToContinue (front : List Json) (turn : Json) :
    results (askToContinue (front ++ [turn])) =
      if (unfinishedText? turn).isSome then results front else results (front ++ [turn]) := by
  rw [askToContinue, lastUnfinished?, List.getLast?_concat, Option.bind_some]
  cases unfinishedText? turn with
  | none => rfl
  | some text =>
    dsimp only
    rw [List.dropLast_concat, results_append, results_continuation, List.append_nil]
    rfl

/-- The conversation ends in a function's turn that makes no call and is read as the model's. -/
def LosesLast (turns : List Json) : Prop :=
  Misread turns ∧ ∀ turn ∈ turns.getLast?, Turn.has .functionCall turn = false

instance (turns : List Json) : Decidable (LosesLast turns) := inferInstanceAs (Decidable (_ ∧ _))

theorem losesLast_concat :
    LosesLast (front ++ [turn]) ↔
      Misread (front ++ [turn]) ∧ Turn.has .functionCall turn = false := by
  rw [LosesLast, List.getLast?_concat]
  simp

theorem results_fillRoles (previous : Option Role) (turns : List Json) :
    results (fillRoles previous turns) = results turns := by
  rw [results, flatMap_parts_fillRoles, results]

theorem isSome_unfinishedText?_readAs (h : HasSpeaker turn) (front : List Json) :
    (unfinishedText? (readAs front turn)).isSome ↔
      LosesLast (front ++ [turn]) ∨
        Turn.role turn = .model ∧ Turn.has .functionCall turn = false := by
  rw [isSome_unfinishedText?, losesLast_concat, Turn.has, parts_readAs, ← Turn.has, role_readAs h,
    ← or_and_right, ite_eq_left_iff]
  simp only [reduceCtorEq, imp_false, not_not]

theorem results_adapted (hs : ∀ turn ∈ turns, HasSpeaker turn)
    (hr : ∀ turn ∈ turns, Turn.role turn = .model → results [turn] = []) :
    results (adapted .claude turns) =
      results (if LosesLast turns then turns.dropLast else turns) := by
  rcases List.eq_nil_or_concat turns with rfl | ⟨front, turn, rfl⟩
  · rw [if_neg fun h => h.1.1 rfl]
    rfl
  · rw [List.concat_eq_append] at hs hr ⊢
    have hmem : turn ∈ front ++ [turn] := List.mem_append_right _ (.head _)
    have hwhole := results_fillRoles none (front ++ [turn])
    rw [fillRoles_concat hs] at hwhole
    rw [adapted, closed, if_pos rfl, fillRoles_concat hs, results_askToContinue, hwhole,
      results_fillRoles, List.dropLast_concat]
    simp only [isSome_unfinishedText?_readAs (hs turn hmem)]
    by_cases hl : LosesLast (front ++ [turn])
    · rw [if_pos (.inl hl), if_pos hl]
    · rw [if_neg hl]
      split
      -- What is taken out is the model's own turn, which holds no results.
      · next h =>
        have hmodel := (h.resolve_left hl).1
        rw [results_append, hr turn hmem hmodel, List.append_nil]
      · rfl

theorem results_delivered (ids : IdSource) (hs : ∀ turn ∈ turns, HasSpeaker turn)
    (hr : ∀ turn ∈ turns, Turn.role turn = .model → results [turn] = []) :
    List.Forall₂ SameButId (results (if LosesLast turns then turns.dropLast else turns))
      (results (delivered .gemini .claude ids turns)) := by
  have hsigned : ∀ ts, signed .claude ts = ts := fun ts => List.map_id ts
  rw [← results_adapted hs hr, delivered, grouped, if_neg (by decide), hsigned]
  exact results_congr (sameButId_linkTurns ..)

end Conversation

end Dialogue
