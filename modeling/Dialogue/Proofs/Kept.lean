import Dialogue.Proofs.Conversation.Kept
import Dialogue.Proofs.Refusal
import Dialogue.Proofs.Targets

namespace Dialogue

namespace Body

def ownedKeys : List String := ["contents", "tools", "generationConfig"]

variable {body : Json}

theorem rewritten_withSettings (ho : body.isObject = true) (threshold : Threshold)
    (keys : List String) :
    Json.Rewritten keys (Json.addedBy "safetySettings" threshold.settings body) body
      (Stage.withSettings threshold body) := by
  rw [Stage.withSettings, Json.addedBy]
  split
  · exact .refl ho keys
  · next hs => exact .putField_of_field?_eq_none ho (by simpa using hs) keys _

theorem rewritten_delivered {context : Context} (ht : context.target = .gemini) (ids : IdSource)
    (ho : body.isObject = true) :
    Json.Rewritten ownedKeys (Json.addedBy "safetySettings" context.threshold.settings body) body
      (delivered context ids body) := by
  rw [delivered, renamed_of_gemini ht]
  have hrenamed : Json.Rewritten ownedKeys [] body (renamedSchema (renamedTools body)) :=
    ((Json.Rewritten.refl ho ownedKeys).onField (by decide) _).onField (by decide) _
  have hcontents : Json.Rewritten ownedKeys [] body
      (Json.onField "contents"
        (Json.onItems (Conversation.delivered context.target context.family ids))
        (renamedSchema (renamedTools body))) := hrenamed.onField (by decide) _
  have hsettings := rewritten_withSettings hcontents.isObject context.threshold ownedKeys
  rw [Json.addedBy_congr (hcontents.field? (by decide))] at hsettings
  exact hcontents.trans hsettings

end Body

namespace Normalizer

/-- Of a body that is an object, nothing is changed but what is named here: it is always sent, and
what it is sent as is said of the whole document, of every turn and of every part. -/
theorem kept_of_gemini (n : Normalizer) (ht : n.target = .gemini) (requestId model : String)
    (stream : Bool) (ids : IdSource) {payload : Json} (ho : payload.isObject = true) :
    ∃ document,
      (n.normalize (n.context requestId model stream) ids payload).result = .ok document ∧
      Json.Rewritten Body.ownedKeys
        (Json.addedBy "safetySettings" n.threshold.settings payload) payload document ∧
      (∀ turns, payload.field? "contents" = some (.array turns) →
        ∃ sent, document.field? "contents" = some (.array sent) ∧
          Conversation.Kept (ModelFamily.ofModel model) turns sent) ∧
      ∀ contents, payload.field? "contents" = some contents → contents.items? = none →
        document.field? "contents" = some contents := by
  have hctx : (n.context requestId model stream).target = .gemini := ht
  cases hc : payload.field? "contents" with
  | none =>
    have hy := Stage.safety_yields ids ho (by rw [hctx]; rfl)
    refine ⟨_, ?_, Body.rewritten_withSettings ho n.threshold _, nofun, nofun⟩
    rw [normalize_of_no_contents n requestId model stream ids ht hc, (hy.logged _).result, hctx]
    rfl
  | some contents =>
    have hy := normalize_yields n requestId model stream ids hc
      (fun hg => by rw [ht] at hg; cases hg)
    rw [Context.sealed_of_gemini hctx, Context.bodyOf_of_gemini hctx] at hy
    have hsent := Body.field?_delivered_contents (n.context requestId model stream) ids payload
    rw [hc, Option.map_some, hctx] at hsent
    refine ⟨_, hy.result, Body.rewritten_delivered hctx ids ho, fun turns hturns => ?_,
      fun other hother hi => ?_⟩
    · cases hturns
      exact ⟨_, hsent, Conversation.kept_delivered ..⟩
    · cases hother
      rw [hsent]
      cases contents with
      | array items => cases hi
      | _ => rfl

end Normalizer

def Body.unusual : Json :=
  .object [("labels", .object [("b", .null), ("a", .null)]), ("contents", .array [
    .null,
    .object [("role", .string "model"), ("index", .number "1"), ("parts", .array [
      .object [("functionCall", .object [("id", .string ""), ("name", .string "f")]),
        ("note", .null)],
      .string "text"])],
    .object [("parts", .array [.object [("functionResponse", .object [("name", .string "f")])]])]]),
    ("model", .string "own")]

theorem Normalizer.kept_unusual :
    ∃ document sent,
      (normalize { target := .gemini } (context { target := .gemini } "" "gemini" false) .counting
        Body.unusual).result = .ok document ∧
      Json.Rewritten Body.ownedKeys [("safetySettings", Threshold.settings .off)] Body.unusual
        document ∧
      document.field? "contents" = some (.array sent) ∧
      ∀ turns, Body.unusual.field? "contents" = some (.array turns) →
        Conversation.Kept .other turns sent := by
  have ho : Body.unusual.isObject = true := rfl
  obtain ⟨document, hd, hr, hk, -⟩ := kept_of_gemini { target := .gemini } rfl "" "gemini" false
    .counting ho
  obtain ⟨sent, hs, hkept⟩ := hk _ rfl
  refine ⟨document, sent, hd, hr, hs, fun turns ht => ?_⟩
  cases ht
  exact hkept

end Dialogue
