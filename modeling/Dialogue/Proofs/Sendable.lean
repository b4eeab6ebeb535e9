import Dialogue.Proofs.Conversation.Sendable

namespace Dialogue

open Json (onField)

namespace Body

/-- What is asked of a body, whatever names it uses. -/
structure Sendable (context : Context) (body : Json) : Prop where
  conversation : context.target = .antigravity →
    ∃ turns, body.field? "contents" = some (.array turns)
  turns : ∀ turns, body.field? "contents" = some (.array turns) →
    ∀ turn ∈ turns, Turn.Sendable context.target context.family turn
  settings : ∃ settings, body.field? "safetySettings" = some settings

variable {context : Context} {ids : IdSource} {body : Json}

theorem field?_withSettings_of_ne {key : String} (hk : key ≠ "safetySettings")
    (threshold : Threshold) (body : Json) :
    (Stage.withSettings threshold body).field? key = body.field? key := by
  rw [Stage.withSettings]
  split
  · rfl
  · exact Json.field?_putField_of_ne hk ..

theorem exists_settings (threshold : Threshold) (h : body.isObject = true) :
    ∃ settings, (Stage.withSettings threshold body).field? "safetySettings" = some settings := by
  rw [Stage.withSettings]
  split
  · next hs => exact Option.isSome_iff_exists.1 hs
  · exact ⟨_, Json.field?_putField_self h ..⟩

theorem field?_delivered_of_ne {key : String} (hc : key ≠ "contents")
    (hs : key ≠ "safetySettings") (context : Context) (ids : IdSource) (body : Json) :
    (delivered context ids body).field? key = (renamed context body).field? key := by
  rw [delivered, field?_withSettings_of_ne hs, Json.field?_onField_of_ne hc]

theorem field?_delivered_contents (context : Context) (ids : IdSource) (body : Json) :
    (delivered context ids body).field? "contents" =
      (body.field? "contents").map
        (Json.onItems (Conversation.delivered context.target context.family ids)) := by
  rw [delivered, field?_withSettings_of_ne (by decide), Json.field?_onField_self,
    field?_renamed_contents]

theorem sendable_delivered (hids : ids.Nonempty) {contents : Json}
    (hc : body.field? "contents" = some contents)
    (ha : context.target.needsGrouping = true → ∃ turns, contents = .array turns) :
    Sendable context (delivered context ids body) where
  conversation := by
    intro ht
    obtain ⟨turns, rfl⟩ := ha (by rw [ht]; rfl)
    rw [field?_delivered_contents, hc]
    exact ⟨_, rfl⟩
  turns := by
    intro sent hs
    rw [field?_delivered_contents, hc] at hs
    cases contents with
    | array turns =>
      cases hs
      exact Conversation.sendable_delivered context.target context.family hids turns
    | _ => cases hs
  settings := exists_settings context.threshold (Normalizer.isObject_holding hc)

theorem current_delivered (ids : IdSource) (h : body.Distinct) :
    Current context (delivered context ids body) := by
  apply (current_renamed context h).congr
  intro key hk
  have hne : key ≠ "contents" ∧ key ≠ "safetySettings" := by
    constructor <;> (rintro rfl; revert hk; decide)
  exact field?_delivered_of_ne hne.1 hne.2 context ids body

end Body

theorem Context.distinct_bodyOf (context : Context) {payload : Json} (h : payload.Distinct) :
    (context.bodyOf payload).Distinct := by
  rw [bodyOf]
  split
  · exact h
  · cases payload with
    | object ms => exact ⟨h.1.sublist ((Members.erase_sublist ..).map _), h.2.erase _⟩
    | _ => exact h

theorem Context.field?_bodyOf_model {context : Context} (ht : context.target = .antigravity)
    {payload : Json} (h : payload.Distinct) :
    (context.bodyOf payload).field? "model" = none := by
  rw [bodyOf, ht]
  cases payload with
  | object ms => exact Members.get?_erase_self h.1
  | _ => rfl

/-- Whatever the payload, a success of all stages is a document as it may be sent. -/
theorem Normalizer.sendable_of_result (n : Normalizer) (requestId model : String) (stream : Bool)
    {ids : IdSource} (hids : ids.Nonempty) {payload document : Json}
    (h : (n.normalize (n.context requestId model stream) ids payload).result = .ok document)
    (hrun : n.target = .antigravity ∨ payload.has ["contents"] = true) :
    ∃ body, document = (n.context requestId model stream).sealed body ∧
      Body.Sendable (n.context requestId model stream) body ∧
      (payload.Distinct → Body.Current (n.context requestId model stream) body ∧
        (n.target = .antigravity → body.field? "model" = none)) := by
  obtain ⟨contents, hc, ha⟩ := exists_contents_of_result n requestId model stream ids h hrun
  have hy := normalize_yields n requestId model stream ids hc ha
  have hctx : (n.context requestId model stream).target = n.target := rfl
  rw [hy.result] at h
  cases h
  generalize n.context requestId model stream = context at hctx ⊢
  rw [← hctx] at ha ⊢
  have hb : (context.bodyOf payload).field? "contents" = some contents := by
    rw [Context.field?_bodyOf (by decide), hc]
  refine ⟨_, rfl, Body.sendable_delivered hids hb ha, fun hd => ⟨?_, fun ht => ?_⟩⟩
  · exact Body.current_delivered ids (context.distinct_bodyOf hd)
  · rw [Body.field?_delivered_of_ne (by decide) (by decide), Body.field?_renamed_of_ne (by decide)]
    exact Context.field?_bodyOf_model ht hd

def Body.oneCall : Json :=
  .object [("model", .string "gemini"), ("contents", .array [Turn.calling [none]])]

theorem Normalizer.exists_sendable_call :
    ∃ document,
      (normalize { target := .antigravity } (context { target := .antigravity } "" "gemini" false)
        .counting Body.oneCall).result = .ok document ∧
      ∃ body, document = (context { target := .antigravity } "" "gemini" false).sealed body ∧
        Body.Sendable (context { target := .antigravity } "" "gemini" false) body ∧
        Body.Current (context { target := .antigravity } "" "gemini" false) body ∧
        body.field? "model" = none := by
  have h : (normalize { target := .antigravity } (context { target := .antigravity } "" "gemini"
      false) .counting Body.oneCall).result = .ok _ := rfl
  obtain ⟨body, hd, hs, hcurrent⟩ := sendable_of_result { target := .antigravity } "" "gemini" false
    IdSource.nonempty_counting h (.inl rfl)
  obtain ⟨hc, hm⟩ := hcurrent
    (by simp [Body.oneCall, Turn.calling, Turn.labelled, Json.Distinct, Json.DistinctMembers,
      Json.DistinctItems])
  exact ⟨_, h, body, hd, hs, hc, hm rfl⟩

end Dialogue
