import Dialogue.Proofs.Conversation.Stable
import Dialogue.Proofs.Refusal
import Dialogue.Proofs.Targets

namespace Dialogue

open Json (onField)
open Conversation (ResponsesIdentified)

theorem ModelFamily.eq_of_ne_claude {family family' : ModelFamily} (h : family ≠ .claude)
    (h' : family' ≠ .claude) : family = family' := by
  cases family <;> cases family' <;> first | rfl | contradiction

namespace Body

variable {context : Context} {body : Json}

theorem Current.toward {context' : Context} (h : Current context body)
    (ht : context'.target = context.target) : Current context' body where
  tools := h.tools
  schema := h.schema
  instruction := by
    rw [ht]
    exact h.instruction

theorem Sendable.toward {context' : Context} (h : Sendable context body)
    (ht : context'.target = context.target) (hf : context'.family = context.family) :
    Sendable context' body where
  conversation := by
    rw [ht]
    exact h.conversation
  turns := by
    rw [ht, hf]
    exact h.turns
  settings := h.settings

theorem withSettings_of_settings {settings : Json}
    (h : body.field? "safetySettings" = some settings) (threshold : Threshold) :
    Stage.withSettings threshold body = body := by
  rw [Stage.withSettings, h]
  rfl

theorem delivered_of_sendable (ht : context.target = .gemini) (hf : context.family ≠ .claude)
    (hs : Sendable context body) (hc : Current context body)
    (hr : ∀ turns, body.field? "contents" = some (.array turns) → ResponsesIdentified turns)
    (ids : IdSource) : delivered context ids body = body := by
  obtain ⟨settings, hsettings⟩ := hs.settings
  have hturns := hs.turns
  rw [ht] at hturns
  have hcontents : onField "contents"
      (Json.onItems (Conversation.delivered context.target context.family ids)) body = body := by
    refine Json.onField_of_fixed fun contents hv => ?_
    cases contents with
    | array turns =>
      rw [ht]
      exact congrArg Json.array
        (Conversation.delivered_of_sendable (hturns turns hv) (hr turns hv) hf ids)
    | _ => rfl
  rw [delivered, renamed_of_current hc, hcontents, withSettings_of_settings hsettings]

end Body

namespace Normalizer

variable (n : Normalizer) (requestId requestId' model model' : String) (stream stream' : Bool)
  {ids : IdSource} {payload document : Json}

theorem exists_settled_of_no_contents (ht : n.target = .gemini)
    (hc : payload.field? "contents" = none)
    (h : (n.normalize (n.context requestId model stream) ids payload).result = .ok document) :
    ∃ body, (body = payload ∨ body = .object []) ∧ body.isObject = true ∧
      body.field? "contents" = none ∧ document = Stage.withSettings n.threshold body := by
  have ha : Accepts n.target payload :=
    (exists_result_iff n requestId model stream ids).1 ⟨document, h⟩
  rw [ht] at ha
  rw [normalize_of_no_contents n requestId model stream ids ht hc] at h
  have hctx : (n.context requestId model stream).target = .gemini := ht
  rcases ha with ho | rfl
  · have hy := (Stage.safety_yields ids ho (by rw [hctx]; rfl)).logged
      [.normalizing model n.target (ModelFamily.ofModel model), .noConversation]
    rw [hy.result, hctx] at h
    exact ⟨payload, .inl rfl, ho, hc, (Except.ok.inj h).symm⟩
  · have hy := (Stage.safety_of_null hctx ids).logged
      [.normalizing model n.target (ModelFamily.ofModel model), .noConversation]
    rw [hy.result] at h
    exact ⟨.object [], .inr rfl, rfl, rfl, (Except.ok.inj h).symm⟩

theorem yields_settled (ht : n.target = .gemini) {body : Json} (ho : body.isObject = true)
    (hc : body.field? "contents" = none) (ids : IdSource) :
    (n.normalize (n.context requestId model stream) ids
      (Stage.withSettings n.threshold body)).Yields ids (Stage.withSettings n.threshold body) := by
  obtain ⟨settings, hs⟩ := Body.exists_settings n.threshold ho
  have hcontents : (Stage.withSettings n.threshold body).field? "contents" = none := by
    rw [Body.field?_withSettings_of_ne (by decide), hc]
  have hctx : (n.context requestId model stream).target = .gemini := ht
  have hy : (Stage.safety.apply (n.context requestId model stream) ids
      (Stage.withSettings n.threshold body)).Yields ids _ :=
    Stage.safety_yields ids (Json.isObject_of_field? hs) (by rw [hctx]; rfl)
  rw [hctx] at hy
  rw [normalize_of_no_contents n requestId model stream ids ht hcontents]
  refine Outcome.Yields.logged ?_ _
  rwa [show Json.modify (Stage.withSettings (n.context requestId model stream).threshold)
      (Stage.withSettings n.threshold body) Target.gemini.bodyPath =
      Stage.withSettings n.threshold body from Body.withSettings_of_settings hs _] at hy

theorem idsAfter_of_sendable {context : Context} {body : Json} (ht : context.target = .gemini)
    (hf : context.family ≠ .claude) (hs : Body.Sendable context body)
    (hr : ∀ turns, body.field? "contents" = some (.array turns) → ResponsesIdentified turns)
    (ids : IdSource) : idsAfter context.family ids body = ids := by
  rw [idsAfter]
  split
  · rfl
  · next turns hi =>
    have hc := Json.bind_items?_eq_some.1 hi
    have hturns := hs.turns turns hc
    rw [ht] at hturns
    rw [Conversation.adapted_of_sendable hturns hf, Conversation.ids_linkTurns,
      Conversation.anonymousCalls_of_identified
        (Conversation.turnIdentified_of_sendable hturns (hr turns hc))]
    rfl

/-- What a normalizer sends for a model that is no Claude, it sends for any such model as it is, as
long as every response of the user says which call it answers. -/
theorem normalize_stable (ht : n.target = .gemini) (hids : ids.Nonempty) (hd : payload.Distinct)
    (hm : ModelFamily.ofModel model ≠ .claude) (hm' : ModelFamily.ofModel model' ≠ .claude)
    (h : (n.normalize (n.context requestId model stream) ids payload).result = .ok document)
    (hr : ∀ turns, document.field? "contents" = some (.array turns) → ResponsesIdentified turns)
    (ids' : IdSource) :
    (n.normalize (n.context requestId' model' stream') ids' document).Yields ids' document := by
  cases hc : payload.field? "contents" with
  | none =>
    obtain ⟨body, -, ho, hnone, rfl⟩ :=
      exists_settled_of_no_contents n requestId model stream ht hc h
    exact yields_settled n requestId' model' stream' ht ho hnone ids'
  | some contents =>
    have hctx : (n.context requestId model stream).target = .gemini := ht
    have hctx' : (n.context requestId' model' stream').target = .gemini := ht
    have hfamily : (n.context requestId' model' stream').family =
        (n.context requestId model stream).family := ModelFamily.eq_of_ne_claude hm' hm
    have hg : n.target.needsGrouping = true → ∃ turns, contents = .array turns := by
      rw [ht]
      nofun
    have hsent := (normalize_yields n requestId model stream ids hc hg).result.symm.trans h
    rw [Context.sealed_of_gemini hctx, Context.bodyOf_of_gemini hctx, Except.ok.injEq] at hsent
    obtain ⟨sent, hcontents⟩ : ∃ sent, document.field? "contents" = some sent := by
      rw [← hsent, Body.field?_delivered_contents, hc]
      exact ⟨_, rfl⟩
    have hs : Body.Sendable (n.context requestId' model' stream') document := by
      rw [← hsent]
      exact (Body.sendable_delivered hids hc hg).toward rfl hfamily
    have hcurrent : Body.Current (n.context requestId' model' stream') document := by
      rw [← hsent]
      exact (Body.current_delivered ids hd).toward rfl
    have hy := normalize_yields n requestId' model' stream' ids' hcontents (by rw [ht]; nofun)
    rwa [Context.sealed_of_gemini hctx', Context.bodyOf_of_gemini hctx',
      idsAfter_of_sendable hctx' hm' hs hr, Body.delivered_of_sendable hctx' hm' hs hcurrent hr]
      at hy

end Normalizer

def Body.unfinished : Json :=
  .object [("generationConfig", .object [("responseSchema", .object [])]),
    ("contents", .array [
      .object [("parts", .array [.object [("text", .string "Go.")]])],
      Turn.calling [none], Turn.replying [none]])]

theorem Normalizer.stable_unfinished :
    ∃ document,
      (normalize { target := .gemini } (context { target := .gemini } "" "gemini" false)
        .counting Body.unfinished).result = .ok document ∧ document ≠ Body.unfinished ∧
      (normalize { target := .gemini } (context { target := .gemini } "" "other" true)
        .counting document).Yields .counting document := by
  have h : (normalize { target := .gemini } (context { target := .gemini } "" "gemini" false)
    .counting Body.unfinished).result = .ok _ := rfl
  refine ⟨_, h, by decide, normalize_stable { target := .gemini } "" "" "gemini" "other" false true
    rfl IdSource.nonempty_counting ?_ (by decide) (by decide) h ?_ .counting⟩
  · simp [Body.unfinished, Turn.calling, Turn.replying, Turn.labelled, Json.Distinct,
      Json.DistinctMembers, Json.DistinctItems]
  · intro turns ht
    cases ht
    decide

end Dialogue
