import Dialogue.Proofs.Grouping.Twins
import Dialogue.Proofs.Refusal
import Dialogue.Proofs.Targets

namespace Dialogue

open Json (onField)
open Conversation (adapted anonymousCalls)

variable {R : String → String → Prop}

def Request.newIds (request : Request) (read : Json.Reader) : Nat :=
  match read request.body with
  | .error _ => 0
  | .ok payload =>
    match (payload.field? "contents").bind Json.items? with
    | none => 0
    | some turns => anonymousCalls (adapted (ModelFamily.ofModel request.model) turns)

def drawnBy (read : Json.Reader) (requests : List Request) : Nat :=
  (requests.map (·.newIds read)).sum

namespace IdSource

def onward (ids : IdSource) (n : Nat) : IdSource where
  text k := ids.text (ids.drawn + n + k)

/-- Identifiers that two sources give at the same point, among their next ones. -/
def Counterparts (ids other : IdSource) (n : Nat) (old new : String) : Prop :=
  ∃ k < n, old = ids.text (ids.drawn + k) ∧ new = other.text (other.drawn + k)

theorem Nonempty.onward {ids : IdSource} (h : ids.Nonempty) (n : Nat) : (ids.onward n).Nonempty :=
  fun _ => h _

theorem agree_counterparts {ids other : IdSource} (h : ids.Nonempty) (ho : other.Nonempty)
    (n : Nat) : Agree (ids.Counterparts other n) n ids other :=
  ⟨h, ho, fun k hk => ⟨k, hk, rfl, rfl⟩⟩

theorem agree_onward {ids : IdSource} (h : ids.Nonempty) (m n : Nat) :
    Agree Eq n (ids.after m) (ids.onward m) := by
  refine ⟨h, h.onward m, fun k _ => ?_⟩
  rw [after, IdSource.onward, Nat.zero_add]

end IdSource

inductive SameAnswer (R : String → String → Prop) :
    Except RequestError Json → Except RequestError Json → Prop where
  | refused {error : RequestError} : SameAnswer R (.error error) (.error error)
  | sent {document other : Json} (h : Json.Renamed R document other) :
      SameAnswer R (.ok document) (.ok other)

theorem SameAnswer.refl (result : Except RequestError Json) : SameAnswer R result result := by
  cases result with
  | error error => exact .refused
  | ok document => exact .sent .same

theorem SameAnswer.eq {result other : Except RequestError Json} (h : SameAnswer Eq result other) :
    result = other := by
  cases h with
  | refused => rfl
  | sent h => rw [h.eq fun _ _ he => he]

theorem Stage.safety_of_any_ids (context : Context) (document : Json) (ids other : IdSource) :
    (Stage.safety.apply context ids document).ids = ids ∧
      (Stage.safety.apply context ids document).result =
        (Stage.safety.apply context other document).result := by
  rw [Stage.apply, Stage.apply, attachSettings, attachSettings]
  split
  · exact ⟨rfl, rfl⟩
  · split
    · exact ⟨rfl, rfl⟩
    · exact ⟨rfl, rfl⟩

namespace Body

variable {context : Context} {body : Json}

theorem delivered_of_no_turns (hc : (body.field? "contents").bind Json.items? = none)
    (ids other : IdSource) : delivered context ids body = delivered context other body := by
  rw [← field?_renamed_contents context] at hc
  rw [delivered, Json.onField_onItems_of_no_items hc, delivered,
    Json.onField_onItems_of_no_items hc]

theorem renamed_delivered {turns : List Json} (hc : body.field? "contents" = some (.array turns))
    {ids other : IdSource}
    (ha : IdSource.Agree R (anonymousCalls (adapted context.family turns)) ids other) :
    Json.Renamed R (delivered context ids body) (delivered context other body) := by
  have htwins := Conversation.twin_delivered context.target context.family ha
  have hf : (Stage.withSettings context.threshold (renamed context body)).field? "contents" =
      some (.array turns) := by
    rw [field?_withSettings_of_ne (by decide), field?_renamed_contents, hc]
  rw [delivered, withSettings_onField (by decide), Json.onField_of_field? hf, delivered,
    withSettings_onField (by decide), Json.onField_of_field? hf]
  exact Json.Renamed.putField (.array (.of_forall₂ (htwins.imp fun _ _ ht => ht.renamed))) ..

end Body

theorem Context.renamed_sealed (context : Context) {body other : Json}
    (h : Json.Renamed R body other) :
    Json.Renamed R (context.sealed body) (context.sealed other) := by
  rw [sealed, sealed]
  split
  · exact h
  · exact .object (.cons .same (.cons h (.cons .same .nil)))

namespace Normalizer

variable (n : Normalizer) (requestId model : String) (stream : Bool) (ids other : IdSource)
  {payload : Json}

theorem normalize_of_no_turns (hc : (payload.field? "contents").bind Json.items? = none) :
    (n.normalize (n.context requestId model stream) ids payload).ids = ids ∧
      (n.normalize (n.context requestId model stream) ids payload).result =
        (n.normalize (n.context requestId model stream) other payload).result := by
  cases ht : n.target with
  | antigravity =>
    have hf := fun ids => normalize_fails n requestId model stream ids ht hc
    exact ⟨(hf ids).ids, (hf ids).result.trans (hf other).result.symm⟩
  | gemini =>
    cases hcontents : payload.field? "contents" with
    | none =>
      rw [normalize_of_no_contents n requestId model stream ids ht hcontents,
        normalize_of_no_contents n requestId model stream other ht hcontents]
      exact Stage.safety_of_any_ids ..
    | some contents =>
      have hb : (((n.context requestId model stream).bodyOf payload).field? "contents").bind
          Json.items? = none := by rw [Context.field?_bodyOf (by decide), hc]
      have hy := fun ids => normalize_yields n requestId model stream ids hcontents
        fun hg => by rw [ht] at hg; cases hg
      refine ⟨?_, ?_⟩
      · rw [(hy ids).ids, idsAfter, hb]
      · rw [(hy ids).result, (hy other).result, Body.delivered_of_no_turns hb ids other]

theorem normalize_of_turns {turns : List Json}
    (hc : payload.field? "contents" = some (.array turns)) :
    (n.normalize (n.context requestId model stream) ids payload).Yields
      (ids.after (anonymousCalls (adapted (ModelFamily.ofModel model) turns)))
      ((n.context requestId model stream).sealed (Body.delivered
        (n.context requestId model stream) ids
        ((n.context requestId model stream).bodyOf payload))) := by
  have hy := normalize_yields n requestId model stream ids hc fun _ => ⟨turns, rfl⟩
  rw [idsAfter, Context.field?_bodyOf (by decide), hc, Option.bind_some, Json.items?] at hy
  dsimp only at hy
  rwa [Conversation.ids_linkTurns] at hy

variable {read : Json.Reader} {request : Request}

theorem ids_answer :
    (n.answer requestId ids request read).ids = ids.after (request.newIds read) := by
  rw [answer, Request.newIds]
  cases read request.body with
  | error failure => rfl
  | ok payload =>
    dsimp only
    cases hc : (payload.field? "contents").bind Json.items? with
    | none => exact (normalize_of_no_turns n requestId _ _ ids ids hc).1
    | some turns =>
      exact (normalize_of_turns n requestId _ _ ids (Json.bind_items?_eq_some.1 hc)).ids

theorem sameAnswer_answer (ha : IdSource.Agree R (request.newIds read) ids other) :
    SameAnswer R (n.answer requestId ids request read).result
      (n.answer requestId other request read).result := by
  rw [Request.newIds] at ha
  rw [answer, answer]
  cases hr : read request.body with
  | error failure => exact .refused
  | ok payload =>
    rw [hr] at ha
    dsimp only at ha ⊢
    cases hc : (payload.field? "contents").bind Json.items? with
    | none =>
      rw [(normalize_of_no_turns n requestId _ _ ids other hc).2]
      exact .refl _
    | some turns =>
      rw [hc] at ha
      have hb : ((n.context requestId request.model request.stream).bodyOf payload).field?
          "contents" = some (.array turns) := by
        rw [Context.field?_bodyOf (by decide), Json.bind_items?_eq_some.1 hc]
      rw [(normalize_of_turns n requestId _ _ ids (Json.bind_items?_eq_some.1 hc)).result,
        (normalize_of_turns n requestId _ _ other (Json.bind_items?_eq_some.1 hc)).result]
      exact .sent (Context.renamed_sealed _ (Body.renamed_delivered hb ha))

theorem newIds_of_error {error : RequestError}
    (h : (n.answer requestId ids request read).result = .error error) :
    request.newIds read = 0 := by
  rw [answer] at h
  rw [Request.newIds]
  cases hr : read request.body with
  | error failure => rfl
  | ok payload =>
    rw [hr] at h
    dsimp only at h ⊢
    cases hc : (payload.field? "contents").bind Json.items? with
    | none => rfl
    | some turns =>
      rw [(normalize_of_turns n requestId _ _ ids (Json.bind_items?_eq_some.1 hc)).result] at h
      cases h

theorem drawnBy_cons (request : Request) (rest : List Request) :
    drawnBy read (request :: rest) = request.newIds read + drawnBy read rest := by
  rw [drawnBy, List.map_cons, List.sum_cons, drawnBy]

theorem getElem?_answerAll (requests : List Request) (i : Nat) :
    (n.answerAll requestId ids requests read)[i]? = requests[i]?.map fun request =>
      n.answer requestId (ids.after (drawnBy read (requests.take i))) request read := by
  induction requests generalizing ids i with
  | nil => rfl
  | cons first rest ih =>
    cases i with
    | zero => rfl
    | succ i =>
      rw [answerAll, List.getElem?_cons_succ, ih, ids_answer, IdSource.after_after,
        List.getElem?_cons_succ, List.take_succ_cons, drawnBy_cons]

theorem result_after (h : ids.Nonempty) (m : Nat) (request : Request) :
    (n.answer requestId (ids.after m) request read).result =
      (n.answer requestId (ids.onward m) request read).result :=
  (sameAnswer_answer n requestId _ _ (IdSource.agree_onward h m (request.newIds read))).eq

/-- Every request of a session is answered as if it were alone, from an identifier on that the
earlier ones fix by their number of calls without one; a refused request uses up none.  Under
another source, or at another place in any other session, the answer is the same but for the
identifiers it was given, each of which stands where its counterpart stood. -/
theorem answerAll_independent (read : Json.Reader) (hids : ids.Nonempty)
    (hother : other.Nonempty) :
    (∀ (requests : List Request) (i : Nat) (request : Request), requests[i]? = some request →
      ∃ answer, (n.answerAll requestId ids requests read)[i]? = some answer ∧
        answer.result =
          (n.answer requestId (ids.onward (drawnBy read (requests.take i))) request read).result) ∧
    (∀ request : Request,
      (n.answer requestId ids request read).ids = ids.after (request.newIds read) ∧
      ∀ error, (n.answer requestId ids request read).result = .error error →
        request.newIds read = 0) ∧
    (∀ request : Request, SameAnswer (ids.Counterparts other (request.newIds read))
      (n.answer requestId ids request read).result
      (n.answer requestId other request read).result) ∧
    ∀ (requests reordered : List Request) (i j : Nat) (request : Request),
      requests[i]? = some request → reordered[j]? = some request →
      ∃ answer moved, (n.answerAll requestId ids requests read)[i]? = some answer ∧
        (n.answerAll requestId ids reordered read)[j]? = some moved ∧
        SameAnswer ((ids.onward (drawnBy read (requests.take i))).Counterparts
          (ids.onward (drawnBy read (reordered.take j))) (request.newIds read))
          answer.result moved.result := by
  have halone : ∀ (requests : List Request) (i : Nat) (request : Request),
      requests[i]? = some request →
      ∃ answer, (n.answerAll requestId ids requests read)[i]? = some answer ∧
        answer.result =
          (n.answer requestId (ids.onward (drawnBy read (requests.take i))) request
            read).result := by
    intro requests i request hr
    refine ⟨_, ?_, result_after n requestId ids hids _ request⟩
    rw [getElem?_answerAll, hr, Option.map_some]
  refine ⟨halone, fun request => ⟨ids_answer n requestId ids, fun error h =>
      newIds_of_error n requestId ids h⟩, fun request =>
    sameAnswer_answer n requestId ids other (IdSource.agree_counterparts hids hother _), ?_⟩
  intro requests reordered i j request hi hj
  obtain ⟨answer, ha, hanswer⟩ := halone requests i request hi
  obtain ⟨moved, hm, hmoved⟩ := halone reordered j request hj
  refine ⟨answer, moved, ha, hm, ?_⟩
  rw [hanswer, hmoved]
  exact sameAnswer_answer n requestId _ _
    (IdSource.agree_counterparts (hids.onward _) (hids.onward _) _)

end Normalizer

def Request.oneCall : Request where
  model := "gemini"
  body := Json.bytesOf Body.oneCall.compact

def Request.empty : Request where
  model := "gemini"
  body := []

theorem Normalizer.answerAll_oneCall :
    ∃ answer, (answerAll { target := .gemini } "" .counting [.empty, .oneCall, .oneCall])[2]? =
        some answer ∧
      answer.result =
        (Normalizer.answer { target := .gemini } "" (IdSource.counting.onward 1) .oneCall).result ∧
      SameAnswer (IdSource.counting.Counterparts (.random []) 1)
        (Normalizer.answer { target := .gemini } "" .counting .oneCall).result
        (Normalizer.answer { target := .gemini } "" (.random []) .oneCall).result := by
  have hdrawn : drawnBy Json.read [.empty, .oneCall] = 1 := by decide +kernel
  have hnew : Request.oneCall.newIds Json.read = 1 := by decide +kernel
  obtain ⟨halone, -, hsame, -⟩ := answerAll_independent { target := .gemini } "" .counting
    (.random []) Json.read IdSource.nonempty_counting (IdSource.nonempty_random [])
  obtain ⟨answer, ha, hresult⟩ := halone [.empty, .oneCall, .oneCall] 2 .oneCall rfl
  have hsent := hsame .oneCall
  rw [List.take_succ_cons, List.take_succ_cons, List.take_zero, hdrawn] at hresult
  rw [hnew] at hsent
  exact ⟨answer, ha, hresult, hsent⟩

end Dialogue
