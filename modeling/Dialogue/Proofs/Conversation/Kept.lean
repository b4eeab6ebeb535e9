import Dialogue.Proofs.Conversation.Rounds
import Dialogue.Proofs.Json.Rewritten

namespace Dialogue

open Conversation (Marked signatureKey skipMark)

namespace Part

/-- The value under the key is the same, but that an object without an identifier may have one. -/
inductive KeptButId (key : String) (part sent : Json) : Prop where
  | kept (h : sent.field? key = part.field? key)
  | given {fields : Members} {id identified : Json} (hf : part.field? key = some (.object fields))
      (hn : usableId? fields = none) (hs : sent.field? key = some identified)
      (hr : Json.Rewritten ["id"] (Json.addedBy "id" id (.object fields)) (.object fields)
        identified)

/-- The keys of a part whose values may change: that of a call or a response without an identifier,
and that of a signature which gives way to a mark. -/
def changedKeys (family : ModelFamily) (role : Role) (part : Json) : List String :=
  (if isAnonymous (identifiedKey role) part then [identifiedKey role] else []) ++
    if Marked family role part then [signatureKey] else []

structure Rewritten (family : ModelFamily) (role : Role) (part sent : Json) : Prop where
  members : Json.Rewritten (changedKeys family role part)
    (if Marked family role part then Json.addedBy signatureKey (.string skipMark) part else [])
    part sent
  identified : KeptButId (identifiedKey role) part sent
  signature : Marked family role part → sent.field? signatureKey = some (.string skipMark)

end Part

def Turn.changedKeys (turn : Json) : List String :=
  (if (role turn).isLegal then [] else ["role"]) ++ if (parts? turn).isSome then ["parts"] else []

structure Turn.Rewritten (family : ModelFamily) (turn sent : Json) : Prop where
  members : ∃ text ∈ ["user", "model"], sent.field? "role" = some (.string text) ∧
    Json.Rewritten (changedKeys turn) (Json.addedBy "role" (.string text) turn) turn sent
  parts : ∀ parts, Turn.parts? turn = some parts → ∃ kept, Turn.parts? sent = some kept ∧
    List.Forall₂ (Json.Carried (Part.Rewritten family (Turn.role sent))) parts kept

/-- The turns keep their places, but that the last one may be taken out where the model refuses to
continue it. -/
inductive Conversation.Kept (family : ModelFamily) (turns : List Json) : List Json → Prop where
  | whole {sent : List Json}
      (hl : family = .claude → lastUnfinished? (fillRoles none turns) = none)
      (h : List.Forall₂ (Json.Carried (Turn.Rewritten family)) turns sent) : Kept family turns sent
  | closed {kept : List Json} {text : String} (hf : family = .claude)
      (hl : lastUnfinished? (fillRoles none turns) = some text)
      (h : List.Forall₂ (Json.Carried (Turn.Rewritten family)) turns.dropLast kept) :
      Kept family turns (kept ++ continuation text)

namespace Conversation

variable {family : ModelFamily} {role : Role} {part linked turn : Json}

theorem needsMark_congr (hk : Part.kind linked = Part.kind part)
    (ht : linked.field? "thought" = part.field? "thought")
    (hs : linked.field? signatureKey = part.field? signatureKey) :
    needsMark linked = needsMark part := by
  rw [needsMark, Part.isThought, Part.isCall, hasUsableSignature, hk, ht, hs,
    needsMark, Part.isThought, Part.isCall, hasUsableSignature]

theorem marked_congr (hk : Part.kind linked = Part.kind part)
    (ht : linked.field? "thought" = part.field? "thought")
    (hs : linked.field? signatureKey = part.field? signatureKey) :
    Marked family role linked ↔ Marked family role part := by
  rw [Marked, needsMark_congr hk ht hs, Marked]

theorem identifiedKey_ne (role : Role) :
    Part.identifiedKey role ≠ "thought" ∧ Part.identifiedKey role ≠ signatureKey := by
  cases role <;> decide

theorem rewritten_signedPart (ho : part.isObject = true) (role : Role) (state : Linking) :
    Part.Rewritten family role part (signedPart family role (linkPart role state part).2) := by
  have hkind := (sameButId_linkPart role state part).kind
  obtain ⟨hthought, hsignature⟩ := identifiedKey_ne role
  -- What linking does to the part, whether or not it is signed then.
  obtain ⟨hm, hi, ht, hs, hlo⟩ :
      Json.Rewritten (Part.changedKeys family role part) [] part (linkPart role state part).2 ∧
      Part.KeptButId (Part.identifiedKey role) part (linkPart role state part).2 ∧
      (linkPart role state part).2.field? "thought" = part.field? "thought" ∧
      (linkPart role state part).2.field? signatureKey = part.field? signatureKey ∧
      (linkPart role state part).2.isObject = true := by
    rcases linkPart_eq_or_given role state part with h | ⟨fields, id, hf, hn, h⟩
    · rw [h]
      exact ⟨.refl ho _, .kept rfl, rfl, rfl, ho⟩
    · have hkey : Part.identifiedKey role ∈ Part.changedKeys family role part := by
        simp [Part.changedKeys, Part.isAnonymous_of_field? hf hn]
      rw [h]
      refine ⟨?_, ?_, Json.field?_putField_of_ne hthought.symm ..,
        Json.field?_putField_of_ne hsignature.symm .., (Json.isObject_putField ..).trans ho⟩
      · exact (Json.Rewritten.refl ho _).putField_of_isSome hkey (Option.isSome_of_mem hf) _
      · exact .given hf hn (Json.field?_putField_self ho ..) (.putField rfl (.head _) id)
  generalize (linkPart role state part).2 = linked at hm hi ht hs hlo hkind ⊢
  have hmarked : Marked family role linked ↔ Marked family role part := marked_congr hkind ht hs
  rw [signedPart]
  by_cases hmark : Marked family role part
  · have hkey : signatureKey ∈ Part.changedKeys family role part := by
      simp [Part.changedKeys, hmark]
    rw [if_pos (hmarked.2 hmark)]
    refine ⟨?_, ?_, fun _ => Json.field?_putField_self hlo ..⟩
    · rw [if_pos hmark, ← Json.addedBy_congr hs]
      exact hm.trans (.putField hlo hkey _)
    · cases hi with
      | kept h => exact .kept ((Json.field?_putField_of_ne hsignature ..).trans h)
      | given hf hn hg hr =>
        exact .given hf hn ((Json.field?_putField_of_ne hsignature ..).trans hg) hr
  · rw [if_neg (hmarked.not.2 hmark)]
    refine ⟨?_, hi, fun h => absurd h hmark⟩
    rwa [if_neg hmark]

theorem carried_signedParts (role : Role) (state : Linking) (parts : List Json) :
    List.Forall₂ (Json.Carried (Part.Rewritten family role)) parts
      ((linkParts role state parts).2.map (signedPart family role)) := by
  induction parts generalizing state with
  | nil => exact .nil
  | cons part rest ih =>
    refine .cons ?_ (ih _)
    cases ho : part.isObject with
    | true => exact .rewritten ho (rewritten_signedPart ho role state)
    | false =>
      have hplain : Part.IsPlain part :=
        ⟨Json.field?_of_not_isObject ho _, Json.field?_of_not_isObject ho _⟩
      have hsigned : signedPart family role part = part := by
        rw [signedPart, Json.putField_of_not_isObject ho, ite_self]
      rw [linkPart_of_isPlain role state hplain, hsigned]
      exact .verbatim ho

def GivenRole (turn filled : Json) : Prop :=
  ∃ text ∈ ["user", "model"], filled = turn.putField "role" (.string text) ∧
    ((Turn.role turn).isLegal = true → turn.field? "role" = some (.string text))

theorem field?_of_isLegal (h : (Turn.role turn).isLegal = true) :
    ∃ text ∈ ["user", "model"], turn.field? "role" = some (.string text) := by
  rw [Turn.role] at h
  split at h
  · cases h
  · cases h
  · next text hf =>
    refine ⟨text, ?_, hf⟩
    unfold Role.ofText at h
    split at h
    · cases h
    · decide
    · decide
    · cases h
    · cases h
  · cases h

theorem givenRole_withRole (h : ¬ (Turn.role turn).isLegal = true) (hr : role.isLegal = true) :
    GivenRole turn (withRole turn role) := by
  rcases isLegal_iff.1 hr with rfl | rfl
  · exact ⟨"user", by decide, rfl, fun hl => absurd hl h⟩
  · exact ⟨"model", by decide, rfl, fun hl => absurd hl h⟩

theorem carried_fillRoles (previous : Option Role) (turns : List Json) :
    List.Forall₂ (Json.Carried GivenRole) turns (fillRoles previous turns) := by
  induction turns generalizing previous with
  | nil => exact .nil
  | cons turn rest ih =>
    rw [fillRoles]
    split
    · next hl =>
      obtain ⟨text, ht, hf⟩ := field?_of_isLegal hl
      have hg : GivenRole turn turn := ⟨text, ht, (Json.putField_of_field? hf).symm, fun _ => hf⟩
      exact .cons (.rewritten (Json.isObject_of_field? hf) hg) (ih _)
    · next hl =>
      split
      · next ho =>
        exact .cons (.rewritten ho (givenRole_withRole hl (isLegal_inferRole previous))) (ih _)
      · next ho => exact .cons (.verbatim (by simpa using ho)) (ih _)

theorem signedTurn_linkTurn (family : ModelFamily) (state : Linking) (turn : Json) :
    signedTurn family (linkTurn state turn).2 =
      Json.onField "parts" (Json.onItems fun parts =>
        (linkParts (Turn.role turn) state parts).2.map (signedPart family (Turn.role turn)))
        turn := by
  rw [linkTurn]
  cases hp : Turn.parts? turn with
  | none =>
    dsimp only
    rw [signedTurn_of_parts?_eq_none hp, Json.onField_onItems_of_no_items hp]
  | some parts =>
    have ho := Turn.isObject_of_parts? hp
    dsimp only
    rw [signedTurn_of_parts? (Turn.parts?_withParts ho _), Turn.role_withParts,
      Json.onField_of_field? (Turn.field?_of_parts? hp), Turn.withParts, Turn.withParts,
      Json.putField_putField]
    rfl

theorem rewritten_role {text : String} (ho : turn.isObject = true)
    (hkept : (Turn.role turn).isLegal = true → turn.field? "role" = some (.string text)) :
    Json.Rewritten (Turn.changedKeys turn) (Json.addedBy "role" (.string text) turn) turn
      (turn.putField "role" (.string text)) := by
  by_cases hl : (Turn.role turn).isLegal = true
  · rw [Json.putField_of_field? (hkept hl), Json.addedBy, hkept hl]
    exact .refl ho _
  · exact .putField ho (by simp [Turn.changedKeys, hl]) _

theorem rewritten_turn {filled : Json} (h : GivenRole turn filled) (ho : turn.isObject = true)
    (state : Linking) :
    Turn.Rewritten family turn (signedTurn family (linkTurn state filled).2) := by
  obtain ⟨text, ht, hput, hkept⟩ := h
  have hrole : filled.field? "role" = some (.string text) := by
    rw [hput, Json.field?_putField_self ho]
  have hparts : filled.field? "parts" = turn.field? "parts" := by
    rw [hput, Json.field?_putField_of_ne (by decide)]
  have hwritten := rewritten_role ho hkept
  rw [← hput] at hwritten
  rw [signedTurn_linkTurn]
  refine ⟨⟨text, ht, (Json.field?_onField_of_ne (by decide) ..).trans hrole, ?_⟩,
    fun parts hp => ⟨(linkParts (Turn.role filled) state parts).2.map
      (signedPart family (Turn.role filled)), ?_, ?_⟩⟩
  · cases hp : Turn.parts? turn with
    | none =>
      rwa [Json.onField_onItems_of_no_items ((congrArg (·.bind Json.items?) hparts).trans hp)]
    | some parts =>
      have hf := Turn.field?_of_parts? hp
      rw [Json.onField_of_field? (hparts.trans hf)]
      exact hwritten.putField_of_isSome (by simp [Turn.changedKeys, hp])
        (Option.isSome_of_mem hf) _
  · rw [Turn.parts?, Json.field?_onField_self, hparts, Turn.field?_of_parts? hp]
    rfl
  · rw [Turn.role_congr (Json.field?_onField_of_ne (by decide) _ filled)]
    exact carried_signedParts _ state parts

variable {turns filled : List Json}

theorem carried_signed (h : List.Forall₂ (Json.Carried GivenRole) turns filled) (state : Linking) :
    List.Forall₂ (Json.Carried (Turn.Rewritten family)) turns
      (signed family (linkTurns state filled).2) := by
  induction h generalizing state with
  | nil => exact .nil
  | cons hturn _ ih =>
    refine .cons ?_ (ih _)
    cases hturn with
    | rewritten ho hg => exact .rewritten ho (rewritten_turn hg ho state)
    | verbatim ho =>
      rw [signedTurn_linkTurn,
        Json.onField_of_field?_eq_none (Json.field?_of_not_isObject ho "parts")]
      exact .verbatim ho

theorem signed_continuation (family : ModelFamily) (state : Linking) (text : String) :
    signed family (linkTurns state (continuation text)).2 = continuation text := by
  rw [continuation]
  split
  · rfl
  · have hrole : Turn.role (continueTurn text) ≠ .model := by rintro ⟨⟩
    have hsigned : signedTurn family (continueTurn text) = continueTurn text :=
      signedTurn_of_role hrole
    rw [linkTurns, (isPlain_continueTurn text).linkTurn]
    exact congrArg (· :: []) hsigned

theorem kept_delivered (family : ModelFamily) (ids : IdSource) (turns : List Json) :
    Kept family turns (delivered .gemini family ids turns) := by
  have hfilled := carried_fillRoles none turns
  rw [delivered, grouped, if_neg (by decide), adapted, closed, Stage.linked]
  split
  · next hf =>
    rw [askToContinue]
    cases hl : lastUnfinished? (fillRoles none turns) with
    | none => exact .whole (fun _ => hl) (carried_signed hfilled _)
    | some text =>
      dsimp only
      rw [linkTurns_append, signed, List.map_append, ← signed, ← signed, signed_continuation]
      have hfront : List.Forall₂ (Json.Carried GivenRole) turns.dropLast
          (fillRoles none turns).dropLast := by
        rw [List.dropLast_eq_take, List.dropLast_eq_take, length_fillRoles]
        exact List.forall₂_take _ hfilled
      exact .closed hf hl (carried_signed hfront _)
  · next hf => exact .whole (fun h => absurd h hf) (carried_signed hfilled _)

end Conversation

end Dialogue
