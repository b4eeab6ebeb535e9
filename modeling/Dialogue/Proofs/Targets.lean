import Dialogue.Proofs.Json.Without
import Dialogue.Proofs.Sendable

namespace Dialogue

open Json (onField moveField)

namespace Body

def instructionKeys : List String := ["system_instruction", "systemInstruction"]

variable {threshold : Threshold} {body : Json}

theorem withSettings_onField {key : String} (hk : key ≠ "safetySettings") (f : Json → Json)
    (body : Json) :
    Stage.withSettings threshold (onField key f body) =
      onField key f (Stage.withSettings threshold body) := by
  rw [Stage.withSettings, Stage.withSettings, Json.field?_onField_of_ne hk.symm]
  split
  · rfl
  · exact Json.putField_onField_comm hk ..

theorem without_withSettings {keys : List String} (h : "safetySettings" ∉ keys)
    (threshold : Threshold) (body : Json) :
    (Stage.withSettings threshold body).without keys =
      Stage.withSettings threshold (body.without keys) := by
  rw [Stage.withSettings, Stage.withSettings, Json.field?_without h]
  split
  · rfl
  · exact Json.without_putField h ..

theorem renamed_of_gemini {context : Context} (h : context.target = .gemini) (body : Json) :
    renamed context body = renamedSchema (renamedTools body) := by
  rw [renamed, renamedInstruction, h]
  rfl

theorem renamed_of_antigravity {context : Context} (h : context.target = .antigravity)
    (body : Json) :
    renamed context body =
      moveField "system_instruction" "systemInstruction" (renamedSchema (renamedTools body)) := by
  rw [renamed, renamedInstruction, h]
  rfl

theorem field?_schema_of_ne {key : String} (ht : key ≠ "tools") (hg : key ≠ "generationConfig")
    (body : Json) : (renamedSchema (renamedTools body)).field? key = body.field? key := by
  rw [renamedSchema, Json.field?_onField_of_ne hg, renamedTools, Json.field?_onField_of_ne ht]

theorem withSettings_onItems_comp (f g : List Json → List Json) (body : Json) :
    Stage.withSettings threshold (onField "contents" (Json.onItems (g ∘ f)) body) =
      onField "contents" (Json.onItems g)
        (Stage.withSettings threshold (onField "contents" (Json.onItems f) body)) := by
  rw [← Json.onItems_comp, ← Json.onField_onField, withSettings_onField (by decide)]

section

variable {bare enveloped : Context} (hb : bare.target = .gemini)
  (he : enveloped.target = .antigravity) (hm : enveloped.model = bare.model)
  (ht : enveloped.threshold = bare.threshold) (ids : IdSource)

include hb he hm

theorem delivered_antigravity :
    Conversation.delivered enveloped.target enveloped.family ids =
      Conversation.groupTurns ∘ Conversation.delivered bare.target bare.family ids := by
  funext turns
  rw [Conversation.delivered, Function.comp_apply, Conversation.delivered, hb, he,
    Context.family, Context.family, hm]
  rfl

include ht

theorem without_delivered_antigravity (body : Json) :
    (delivered enveloped ids body).without instructionKeys =
      (onField "contents" (Json.onItems Conversation.groupTurns)
        (delivered bare ids body)).without instructionKeys := by
  rw [delivered, delivered, delivered_antigravity hb he hm ids, renamed_of_gemini hb,
    renamed_of_antigravity he, ht, ← withSettings_onItems_comp, without_withSettings (by decide),
    without_withSettings (by decide), Json.without_onField (by decide),
    Json.without_onField (by decide), Json.without_moveField (by decide) (by decide)]

theorem delivered_antigravity_of_no_instruction
    (h : body.field? "system_instruction" = none) :
    delivered enveloped ids body =
      onField "contents" (Json.onItems Conversation.groupTurns) (delivered bare ids body) := by
  have hs : (renamedSchema (renamedTools body)).field? "system_instruction" = none := by
    rw [field?_schema_of_ne (by decide) (by decide), h]
  rw [delivered, delivered, delivered_antigravity hb he hm ids, renamed_of_gemini hb,
    renamed_of_antigravity he, ht, ← withSettings_onItems_comp, Json.moveField_of_field?_eq_none hs]

end

theorem field?_delivered_instruction {context : Context} (h : context.target = .antigravity)
    (ids : IdSource) {instruction : Json}
    (hi : body.field? "system_instruction" = some instruction) :
    (delivered context ids body).field? "systemInstruction" = some instruction := by
  rw [field?_delivered_of_ne (by decide) (by decide), renamed_of_antigravity h,
    Json.field?_moveField_new, field?_schema_of_ne (by decide) (by decide), hi, Option.some_or]

end Body

namespace Normalizer

def toward (n : Normalizer) (target : Target) : Normalizer := { n with target }

/-- A request in the envelope is the bare request with its responses grouped, and it draws the same
identifiers. -/
theorem enveloped_eq_grouped (n : Normalizer) (requestId model : String) (stream : Bool)
    (ids : IdSource) (payload : Json) {turns : List Json}
    (hc : payload.field? "contents" = some (.array turns)) :
    ∃ bare body sent left,
      ((n.toward .gemini).normalize ((n.toward .gemini).context requestId model stream) ids
        (Body.withoutModel payload)).Yields left bare ∧
      ((n.toward .antigravity).normalize ((n.toward .antigravity).context requestId model stream)
        ids payload).Yields left (.object [("project", .string n.project), ("request", body),
          ("model", .string model)]) ∧
      bare.field? "contents" = some (.array sent) ∧
      ((Body.withoutModel payload).field? "system_instruction" = none →
        body = bare.putField "contents" (.array (Conversation.groupTurns sent))) ∧
      ∀ instruction, (Body.withoutModel payload).field? "system_instruction" = some instruction →
        body.field? "systemInstruction" = some instruction ∧
        body.without Body.instructionKeys =
          (bare.putField "contents" (.array (Conversation.groupTurns sent))).without
            Body.instructionKeys := by
  have hb : ((n.toward .gemini).context requestId model stream).target = .gemini := rfl
  have he : ((n.toward .antigravity).context requestId model stream).target = .antigravity := rfl
  have hw : (Body.withoutModel payload).field? "contents" = some (.array turns) := by
    rw [← Context.bodyOf_of_antigravity he, Context.field?_bodyOf (by decide), hc]
  have hbare := normalize_yields (n.toward .gemini) requestId model stream ids hw nofun
  rw [Context.sealed_of_gemini hb, Context.bodyOf_of_gemini hb] at hbare
  have henveloped := normalize_yields (n.toward .antigravity) requestId model stream ids hc
    fun _ => ⟨turns, rfl⟩
  rw [Context.sealed_of_antigravity he, Context.bodyOf_of_antigravity he] at henveloped
  have hsent := Body.field?_delivered_contents ((n.toward .gemini).context requestId model stream)
    ids (Body.withoutModel payload)
  rw [hw, Option.map_some, Json.onItems] at hsent
  have hgrouped := Json.onField_of_field? (f := Json.onItems Conversation.groupTurns) hsent
  rw [Json.onItems] at hgrouped
  refine ⟨_, _, _, _, hbare, henveloped, hsent, fun hi => ?_, fun instruction hi => ⟨?_, ?_⟩⟩
  · rw [← hgrouped]
    exact Body.delivered_antigravity_of_no_instruction hb he rfl rfl ids hi
  · exact Body.field?_delivered_instruction he ids hi
  · rw [← hgrouped]
    exact Body.without_delivered_antigravity hb he rfl rfl ids _

end Normalizer

def Body.instructed : Json :=
  .object [("model", .string "own"), ("system_instruction", .string "Be brief."),
    ("contents", .array [
      .object [("role", .string "model"), ("parts", .array [
        .object [("functionCall", .object [("name", .string "f")])],
        .object [("functionCall", .object [("name", .string "g")])]])],
      .object [("role", .string "user"), ("parts", .array [
        .object [("functionResponse", .object [("name", .string "f")])]])],
      .object [("role", .string "user"), ("parts", .array [
        .object [("functionResponse", .object [("name", .string "g")])]])]])]

theorem Normalizer.enveloped_instructed :
    ∃ bare body sent left,
      (normalize { target := .gemini } (context { target := .gemini } "" "gemini" false) .counting
        (Body.withoutModel Body.instructed)).Yields left bare ∧
      (normalize { target := .antigravity } (context { target := .antigravity } "" "gemini" false)
        .counting Body.instructed).Yields left (.object [("project", .string ""),
          ("request", body), ("model", .string "gemini")]) ∧
      bare.field? "contents" = some (.array sent) ∧
      body.field? "systemInstruction" = some (.string "Be brief.") ∧
      body.without Body.instructionKeys =
        (bare.putField "contents" (.array (Conversation.groupTurns sent))).without
          Body.instructionKeys := by
  obtain ⟨bare, body, sent, left, hb, he, hs, -, hi⟩ :=
    enveloped_eq_grouped { target := .gemini } "" "gemini" false .counting Body.instructed rfl
  exact ⟨bare, body, sent, left, hb, he, hs, hi _ rfl⟩

end Dialogue
