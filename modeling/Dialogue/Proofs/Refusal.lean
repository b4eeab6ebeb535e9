import Dialogue.Proofs.Delivery
import Dialogue.Proofs.Except

namespace Dialogue

inductive Refuses (target : Target) (payload : Json) : DocumentError → Prop where
  | missing (ht : target = .antigravity) (hc : payload.field? "contents" = none) :
      Refuses target payload (.missingConversation "request.contents")
  | malformed {contents : Json} (ht : target = .antigravity)
      (hc : payload.field? "contents" = some contents) (hi : ∀ turns, contents ≠ .array turns) :
      Refuses target payload (.malformedConversation "request.contents")
  | noPlace (ht : target = .gemini) (ho : payload.isObject = false) (hn : payload ≠ .null) :
      Refuses target payload (.blocked (.notAContainer "safetySettings" "safetySettings"))

inductive Refused (read : Json.Reader) (target : Target) (body : List UInt8) :
    RequestError → Prop where
  | notJson {failure : Json.Failure} (h : read body = .error failure) :
      Refused read target body (.notJson failure)
  | document {payload : Json} {error : DocumentError} (h : read body = .ok payload)
      (hr : Refuses target payload error) : Refused read target body (.document error)

def Accepts (target : Target) (payload : Json) : Prop :=
  match target with
  | .gemini => payload.isObject = true ∨ payload = .null
  | .antigravity => ∃ turns, payload.field? "contents" = some (.array turns)

section

variable {read : Json.Reader} {target : Target} {body : List UInt8} {payload : Json}
  {error : RequestError}

theorem refused_iff_of_error {failure : Json.Failure} (h : read body = .error failure) :
    Refused read target body error ↔ error = .notJson failure := by
  constructor
  · rintro (⟨h'⟩ | ⟨h', -⟩)
    · rw [h] at h'
      cases h'
      rfl
    · rw [h] at h'
      cases h'
  · rintro rfl
    exact .notJson h

theorem refused_iff_of_ok (h : read body = .ok payload) :
    Refused read target body error ↔
      ∃ reason, Refuses target payload reason ∧ error = .document reason := by
  constructor
  · rintro (⟨h'⟩ | ⟨h', hr⟩)
    · rw [h] at h'
      cases h'
    · rw [h] at h'
      cases h'
      exact ⟨_, hr, rfl⟩
  · rintro ⟨reason, hr, rfl⟩
    exact .document h hr

end

variable {payload : Json}

theorem accepts_or_refuses (target : Target) (payload : Json) :
    Accepts target payload ∨ ∃ error, Refuses target payload error := by
  cases target with
  | gemini =>
    cases ho : payload.isObject with
    | true => exact .inl (.inl ho)
    | false =>
      by_cases hn : payload = .null
      · exact .inl (.inr hn)
      · exact .inr ⟨_, .noPlace rfl ho hn⟩
  | antigravity =>
    cases hc : payload.field? "contents" with
    | none => exact .inr ⟨_, .missing rfl hc⟩
    | some contents =>
      by_cases hi : ∃ turns, contents = .array turns
      · obtain ⟨turns, rfl⟩ := hi
        exact .inl ⟨turns, hc⟩
      · exact .inr ⟨_, .malformed rfl hc (not_exists.1 hi)⟩

namespace Stage

variable {context : Context}

theorem safety_of_null (ht : context.target = .gemini) (ids : IdSource) :
    (Stage.safety.apply context ids .null).Yields ids
      (withSettings context.threshold (.object [])) := by
  rw [Stage.apply, attachSettings, Context.path, ht]
  exact ⟨rfl, rfl, rfl⟩

theorem safety_fails (ht : context.target = .gemini) (ids : IdSource)
    (ho : payload.isObject = false) (hn : payload ≠ .null) :
    (Stage.safety.apply context ids payload).Fails ids
      (.blocked (.notAContainer "safetySettings" "safetySettings")) := by
  rw [Stage.apply, attachSettings, Context.path, ht]
  cases payload with
  | null => exact absurd rfl hn
  | object ms => cases ho
  | bool value => exact ⟨rfl, rfl⟩
  | number spelling => exact ⟨rfl, rfl⟩
  | string text => exact ⟨rfl, rfl⟩
  | array items => exact ⟨rfl, rfl⟩

end Stage

namespace Normalizer

variable (n : Normalizer) (requestId model : String) (stream : Bool) (ids : IdSource)

theorem normalize_of_no_contents (ht : n.target = .gemini)
    (hc : payload.field? "contents" = none) :
    n.normalize (n.context requestId model stream) ids payload =
      (Stage.safety.apply (n.context requestId model stream) ids payload).logged
        [.normalizing model n.target (ModelFamily.ofModel model), .noConversation] := by
  have hctx : (n.context requestId model stream).target = .gemini := ht
  rw [normalize, has_contents, hc, hctx, ht]
  rfl

theorem normalize_refuses {error : DocumentError} (h : Refuses n.target payload error) :
    (n.normalize (n.context requestId model stream) ids payload).Fails ids error := by
  cases h with
  | missing ht hc =>
    have hnone : (payload.field? "contents").bind Json.items? = none := by
      rw [hc]
      rfl
    have hf := normalize_fails n requestId model stream ids ht hnone
    rwa [hc] at hf
  | malformed ht hc hi =>
    have hnone : (payload.field? "contents").bind Json.items? = none := by
      rw [Json.bind_items?_eq_none, hc]
      exact fun items h => hi items (Option.some.inj h)
    have hf := normalize_fails n requestId model stream ids ht hnone
    rwa [hc] at hf
  | noPlace ht ho hn =>
    rw [normalize_of_no_contents n requestId model stream ids ht (Json.field?_of_not_isObject ho _)]
    exact (Stage.safety_fails ht ids ho hn).logged _

theorem exists_yields_of_accepts (h : Accepts n.target payload) :
    ∃ left document, (n.normalize (n.context requestId model stream) ids payload).Yields left
      document := by
  cases hc : payload.field? "contents" with
  | some contents =>
    refine ⟨_, _, normalize_yields n requestId model stream ids hc fun hg => ?_⟩
    cases ht : n.target with
    | gemini => rw [ht] at hg; cases hg
    | antigravity =>
      rw [ht] at h
      obtain ⟨turns, hturns⟩ := h
      rw [hc] at hturns
      exact ⟨turns, Option.some.inj hturns⟩
  | none =>
    cases ht : n.target with
    | antigravity =>
      rw [ht] at h
      obtain ⟨turns, hturns⟩ := h
      rw [hc] at hturns
      cases hturns
    | gemini =>
      rw [ht] at h
      rw [normalize_of_no_contents n requestId model stream ids ht hc]
      rcases h with ho | rfl
      · exact ⟨_, _, (Stage.safety_yields ids ho (by rw [context, ht]; rfl)).logged _⟩
      · exact ⟨_, _, (Stage.safety_of_null ht ids).logged _⟩

theorem result_eq_error_iff {error : DocumentError} :
    (n.normalize (n.context requestId model stream) ids payload).result = .error error ↔
      Refuses n.target payload error := by
  refine ⟨fun h => ?_, fun hr => (normalize_refuses n requestId model stream ids hr).result⟩
  rcases accepts_or_refuses n.target payload with ha | ⟨reason, hr⟩
  · obtain ⟨left, document, hy⟩ := exists_yields_of_accepts n requestId model stream ids ha
    rw [hy.result] at h
    cases h
  · rw [(normalize_refuses n requestId model stream ids hr).result] at h
    cases h
    exact hr

theorem exists_result_iff :
    (∃ document, (n.normalize (n.context requestId model stream) ids payload).result =
      .ok document) ↔ Accepts n.target payload := by
  constructor
  · rintro ⟨document, h⟩
    rcases accepts_or_refuses n.target payload with ha | ⟨error, hr⟩
    · exact ha
    · rw [(normalize_refuses n requestId model stream ids hr).result] at h
      cases h
  · intro ha
    obtain ⟨left, document, hy⟩ := exists_yields_of_accepts n requestId model stream ids ha
    exact ⟨document, hy.result⟩

variable {read : Json.Reader}

theorem answer_of_error {request : Request} {failure : Json.Failure}
    (h : read request.body = .error failure) :
    n.answer requestId ids request read = { result := .error (.notJson failure), ids } := by
  rw [answer, h]

theorem result_answer_of_ok {request : Request} (h : read request.body = .ok payload) :
    (n.answer requestId ids request read).result =
      (n.normalize (n.context requestId request.model request.stream) ids payload).result.mapError
        .document := by
  rw [answer, h]

theorem exists_payload_of_answer {request : Request} {document : Json}
    (h : (n.answer requestId ids request read).result = .ok document) :
    ∃ payload, read request.body = .ok payload ∧
      (n.normalize (n.context requestId request.model request.stream) ids payload).result =
        .ok document := by
  cases hr : read request.body with
  | error failure =>
    rw [answer_of_error n requestId ids hr] at h
    cases h
  | ok payload =>
    rw [result_answer_of_ok n requestId ids hr, mapError_eq_ok_iff] at h
    exact ⟨payload, rfl, h⟩

/-- Whatever reads it, a request is refused for one of the reasons above or not at all, and it is
answered if its document is one of those that are sent on. -/
theorem answer_refused_iff (request : Request) (read : Json.Reader) :
    (∀ error, (n.answer requestId ids request read).result = .error error ↔
      Refused read n.target request.body error) ∧
    ((∃ document, (n.answer requestId ids request read).result = .ok document) ↔
      ∃ payload, read request.body = .ok payload ∧ Accepts n.target payload) := by
  cases hr : read request.body with
  | error failure =>
    rw [answer_of_error n requestId ids hr]
    refine ⟨fun error => ?_, ?_⟩
    · rw [refused_iff_of_error hr, Except.error.injEq, eq_comm]
    · simp
  | ok payload =>
    rw [result_answer_of_ok n requestId ids hr]
    refine ⟨fun error => ?_, ?_⟩
    · simp only [mapError_eq_error_iff, result_eq_error_iff, refused_iff_of_ok hr]
    · simp only [mapError_eq_ok_iff, exists_result_iff, Except.ok.injEq, exists_eq_left']

end Normalizer

end Dialogue
