import Dialogue.Proofs.Conversation.InStep
import Dialogue.Proofs.Conversation.Kept
import Dialogue.Proofs.Json.Without

namespace Dialogue

namespace Conversation

variable {family : ModelFamily} {part : Json}

theorem signedPart_putField {key : String} {fields : Members} (role : Role)
    (hk : key = "functionCall" ∨ key = "functionResponse")
    (hf : part.field? key = some (.object fields)) (fields' : Members) :
    (signedPart family role part).putField key (.object fields') =
      signedPart family role (part.putField key (.object fields')) := by
  obtain ⟨hthought, hsignature⟩ : "thought" ≠ key ∧ signatureKey ≠ key := by
    rcases hk with rfl | rfl <;> decide
  have hmark : Marked family role (part.putField key (.object fields')) ↔ Marked family role part :=
    marked_congr (Part.kind_putField hk hf fields') (Json.field?_putField_of_ne hthought ..)
      (Json.field?_putField_of_ne hsignature ..)
  simp only [signedPart, hmark]
  split
  · exact (Json.putField_comm hsignature.symm hf ..).symm
  · rfl

theorem linkModelPart_signedPart (role : Role) (state : Linking) (part : Json) :
    linkModelPart state (signedPart family role part) =
      ((linkModelPart state part).1, signedPart family role (linkModelPart state part).2) := by
  rw [linkModelPart, linkModelPart, field?_signedPart_of_ne (by decide)]
  cases hf : part.field? "functionCall" with
  | none => rfl
  | some value =>
    cases value with
    | object fields => exact Prod.ext rfl (signedPart_putField role (.inl rfl) hf _)
    | _ => rfl

theorem linkReplyPart_signedPart (role : Role) (state : Linking) (part : Json) :
    linkReplyPart state (signedPart family role part) =
      ((linkReplyPart state part).1, signedPart family role (linkReplyPart state part).2) := by
  rw [linkReplyPart, linkReplyPart, field?_signedPart_of_ne (by decide)]
  cases hf : part.field? "functionResponse" with
  | none => rfl
  | some value =>
    cases value with
    | object fields => exact Prod.ext rfl (signedPart_putField role (.inr rfl) hf _)
    | _ => rfl

theorem linkPart_signedPart (role : Role) (state : Linking) (part : Json) :
    linkPart role state (signedPart family role part) =
      ((linkPart role state part).1, signedPart family role (linkPart role state part).2) := by
  cases role with
  | model => exact linkModelPart_signedPart _ state part
  | user => exact linkReplyPart_signedPart _ state part
  | function => exact linkReplyPart_signedPart _ state part
  | unset => rfl
  | invalid => rfl

theorem linkParts_signedPart (role : Role) (state : Linking) (parts : List Json) :
    linkParts role state (parts.map (signedPart family role)) =
      ((linkParts role state parts).1,
        (linkParts role state parts).2.map (signedPart family role)) := by
  induction parts generalizing state with
  | nil => rfl
  | cons part rest ih => rw [List.map_cons, linkParts, linkPart_signedPart, ih, linkParts]; rfl

theorem linkTurn_signedTurn (state : Linking) (turn : Json) :
    linkTurn state (signedTurn family turn) =
      ((linkTurn state turn).1, signedTurn family (linkTurn state turn).2) := by
  cases hp : Turn.parts? turn with
  | none =>
    have hlink : linkTurn state turn = (state, turn) := by rw [linkTurn, hp]
    rw [signedTurn_of_parts?_eq_none hp, hlink, signedTurn_of_parts?_eq_none hp]
  | some parts =>
    have ho := Turn.isObject_of_parts? hp
    have hlink : linkTurn state turn = ((linkParts (Turn.role turn) state parts).1,
        Turn.withParts turn (linkParts (Turn.role turn) state parts).2) := by rw [linkTurn, hp]
    rw [hlink, signedTurn_of_parts? hp, signedTurn_of_parts? (Turn.parts?_withParts ho _), linkTurn,
      Turn.parts?_withParts ho, Turn.role_withParts, Turn.role_withParts]
    simp only [linkParts_signedPart, Turn.withParts, Json.putField_putField]

theorem linkTurns_signed (family : ModelFamily) (state : Linking) (turns : List Json) :
    linkTurns state (signed family turns) =
      ((linkTurns state turns).1, signed family (linkTurns state turns).2) := by
  induction turns generalizing state with
  | nil => rfl
  | cons turn rest ih =>
    rw [signed, List.map_cons, ← signed, linkTurns, linkTurn_signedTurn, ih, linkTurns]
    rfl

theorem needsMark_linkPart (role : Role) (state : Linking) (part : Json) :
    needsMark (linkPart role state part).2 = needsMark part := by
  have hkind := (sameButId_linkPart role state part).kind
  obtain ⟨hthought, hsignature⟩ := identifiedKey_ne role
  rcases linkPart_eq_or_given role state part with h | ⟨fields, id, -, -, h⟩
  · rw [h]
  · rw [h] at hkind ⊢
    exact needsMark_congr hkind (Json.field?_putField_of_ne hthought.symm ..)
      (Json.field?_putField_of_ne hsignature.symm ..)

theorem countP_linkParts (role : Role) (state : Linking) (parts : List Json) :
    (linkParts role state parts).2.countP needsMark = parts.countP needsMark := by
  induction parts generalizing state with
  | nil => rfl
  | cons part rest ih =>
    rw [linkParts, List.countP_cons, ih, needsMark_linkPart, List.countP_cons]

theorem countMarks_linkTurns (state : Linking) (turns : List Json) :
    countMarks (linkTurns state turns).2 = countMarks turns := by
  induction turns generalizing state with
  | nil => rfl
  | cons turn rest ih =>
    have hmarks : marksIn (linkTurn state turn).2 = marksIn turn := by
      rw [marksIn, role_linkTurn, (linkTurn_parts state turn).2, countP_linkParts, marksIn]
    rw [linkTurns, countMarks, hmarks, ih, countMarks]

end Conversation

namespace Stage

/-- Linking and signing may change places: the conversation comes out the same, from the same
identifiers, and each logs what it logs in the other order. -/
theorem links_signatures_comm (context : Context) (ids : IdSource) (document : Json) :
    let linked := Stage.links.apply context ids document
    let signed := Stage.signatures.apply context ids document
    let linkedSigned := Stage.signatures.apply context linked.ids linked.document
    let signedLinked := Stage.links.apply context signed.ids signed.document
    linked.failure = none ∧ signed.failure = none ∧
      (∃ left sent, linkedSigned.Yields left sent ∧ signedLinked.Yields left sent) ∧
      linkedSigned.events = signed.events ∧ signedLinked.events = linked.events := by
  have hcomm (turns : List Json) : Conversation.linkTurns { ids } (Conversation.markTurns turns) =
      ((Conversation.linkTurns { ids } turns).1,
        Conversation.markTurns (Conversation.linkTurns { ids } turns).2) :=
    Conversation.linkTurns_signed .other { ids } turns
  cases ht : turns? context document with
  | none =>
    have hlinks : Stage.links.apply context ids document = { document, ids } := by
      rw [Stage.apply, linkCalls, ht]
    have hsignatures : Stage.signatures.apply context ids document = { document, ids } := by
      rw [Stage.apply, markSignatures, ht]
    simp only [hlinks, hsignatures]
    exact ⟨trivial, trivial, ⟨ids, document, ⟨rfl, rfl, rfl⟩, ⟨rfl, rfl, rfl⟩⟩, trivial, trivial⟩
  | some turns =>
    have hdocument :
        context.onTurns Conversation.markTurns (context.onTurns (linked ids) document) =
          context.onTurns (linked ids) (context.onTurns Conversation.markTurns document) := by
      rw [Context.onTurns_onTurns, Context.onTurns_onTurns]
      apply congrArg (context.onTurns · document)
      funext turns
      exact (congrArg Prod.snd (hcomm turns)).symm
    have hmarks : Conversation.countMarks (linked ids turns) = Conversation.countMarks turns :=
      Conversation.countMarks_linkTurns { ids } turns
    simp only [links_of_turns? ht, signatures_of_turns? (turns?_onTurns ht _),
      signatures_of_turns? ht, links_of_turns? (turns?_onTurns ht _), hdocument, hcomm, hmarks]
    exact ⟨trivial, trivial, ⟨_, _, ⟨rfl, rfl, rfl⟩, ⟨rfl, rfl, rfl⟩⟩, trivial, trivial⟩

end Stage

end Dialogue
