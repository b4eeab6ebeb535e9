import Dialogue.Proofs.Conversation.InStep
import Dialogue.Proofs.Targets

namespace Dialogue

open Conversation (HasSpeaker LosesLast Misread Relayed InStep results said fromUser)

namespace Normalizer

theorem sent_of_gemini (n : Normalizer) (ht : n.target = .gemini) (requestId model : String)
    (stream : Bool) (ids : IdSource) (payload : Json) {turns : List Json}
    (hc : payload.field? "contents" = some (.array turns)) :
    ∃ document, (n.normalize (n.context requestId model stream) ids payload).result = .ok document ∧
      document.field? "contents" = some (.array
        (Conversation.delivered .gemini (ModelFamily.ofModel model) ids turns)) := by
  have hctx : (n.context requestId model stream).target = .gemini := ht
  have hy := normalize_yields n requestId model stream ids hc fun hg => by rw [ht] at hg; cases hg
  rw [Context.sealed_of_gemini hctx, Context.bodyOf_of_gemini hctx] at hy
  refine ⟨_, hy.result, ?_⟩
  rw [Body.field?_delivered_contents, hc, hctx]
  rfl

end Normalizer

namespace Conversation

def resultTurn (name : String) : Json :=
  .object [("role", .string "function"), ("parts", .array [
    .object [("functionResponse", .object [("name", .string name), ("response", .object [])])]])]

def separateResults : List Json :=
  [.object [("role", .string "user"), ("parts", .array [.object [("text", .string "q")]])],
    .object [("role", .string "model"), ("parts", .array [
      .object [("functionCall", .object [("name", .string "f"), ("args", .object [])])],
      .object [("functionCall", .object [("name", .string "g"), ("args", .object [])])]])],
    resultTurn "f", resultTurn "g"]

end Conversation

open Conversation (separateResults)

namespace Normalizer

/-- To a model that refuses to continue its own turn, all results are sent in order, up to added
identifiers, but for those of the last turn where that was read as the model's. -/
theorem results_of_claude (n : Normalizer) (ht : n.target = .gemini) (requestId model : String)
    (stream : Bool) (ids : IdSource) (payload : Json) {turns : List Json}
    (hm : ModelFamily.ofModel model = .claude)
    (hs : ∀ turn ∈ turns, HasSpeaker turn)
    (hr : ∀ turn ∈ turns, Turn.role turn = .model → results [turn] = [])
    (hc : payload.field? "contents" = some (.array turns)) :
    ∃ document sent,
      (n.normalize (n.context requestId model stream) ids payload).result = .ok document ∧
      document.field? "contents" = some (.array sent) ∧
      (¬ LosesLast turns → List.Forall₂ Part.SameButId (results turns) (results sent)) ∧
      (LosesLast turns → List.Forall₂ Part.SameButId (results turns.dropLast) (results sent)) := by
  obtain ⟨document, hd, hsent⟩ := sent_of_gemini n ht requestId model stream ids payload hc
  rw [hm] at hsent
  have hresults := Conversation.results_delivered ids hs hr
  refine ⟨document, _, hd, hsent, fun hl => ?_, fun hl => ?_⟩
  · rwa [if_neg hl] at hresults
  · rwa [if_pos hl] at hresults

theorem results_of_separateResults :
    ∃ document sent,
      (normalize { target := .gemini } (context { target := .gemini } "" "claude" false) .counting
        (.object [("contents", .array separateResults)])).result = .ok document ∧
      document.field? "contents" = some (.array sent) ∧
      List.Forall₂ Part.SameButId (results separateResults.dropLast) (results sent) := by
  obtain ⟨document, sent, hd, hs, -, hl⟩ :=
    results_of_claude { target := .gemini } rfl "" "claude" false .counting
      (.object [("contents", .array separateResults)]) (by decide) (by decide) (by decide) rfl
  exact ⟨document, sent, hd, hs, hl (by decide)⟩

theorem not_results_of_separateResults :
    (∀ turn ∈ separateResults, HasSpeaker turn) ∧
      (∀ turn ∈ separateResults, Turn.role turn = .model → results [turn] = []) ∧
      ¬ ∃ document sent,
        (normalize { target := .gemini } (context { target := .gemini } "" "claude" false) .counting
          (.object [("contents", .array separateResults)])).result = .ok document ∧
        document.field? "contents" = some (.array sent) ∧
        List.Forall₂ Part.SameButId (results separateResults) (results sent) := by
  refine ⟨by decide, by decide, ?_⟩
  rintro ⟨document, sent, hd, hs, hf⟩
  obtain ⟨other, ho, hsent⟩ := sent_of_gemini { target := .gemini } rfl "" "claude" false .counting
    (.object [("contents", .array separateResults)]) rfl
  rw [ho] at hd
  cases hd
  rw [hsent] at hs
  cases hs
  exact absurd hf.length_eq (by decide)

end Normalizer

theorem Conversation.relayed_separateResults : Relayed separateResults where
  speaker := by decide
  calls := by decide
  results := by decide
  anonymous := by
    intro part hp fields hf
    change part ∈ [_, _] at hp
    rcases List.mem_pair.1 hp with rfl | rfl
    · cases hf
      rfl
    · cases hf
      rfl
  ahead := by
    intro front hp name
    rw [← List.mem_inits] at hp
    by_cases hf : "f" = name
    · subst hf
      revert front
      decide
    · by_cases hg : "g" = name
      · subst hg
        revert front
        decide
      -- Under any other name there are no results at all.
      · have hsub := ((List.mem_inits ..).1 hp).sublist
        have hle : (said "functionResponse" name front).length ≤
            (said "functionResponse" name separateResults).length :=
          ((hsub.flatMap _).flatMap _).length_le
        have hall : said "functionResponse" name separateResults =
            (if "f" = name then [_] else []) ++ ((if "g" = name then [_] else []) ++ []) := rfl
        rw [hall, if_neg hf, if_neg hg] at hle
        exact hle.trans (Nat.zero_le _)

namespace Normalizer

/-- To any other model, the results in turns that are sent as the user's are in step with the
calls, and those in turns that were read as the model's are passed on as they came. -/
theorem inStep_of_relayed (n : Normalizer) (ht : n.target = .gemini) (requestId model : String)
    (stream : Bool) {ids : IdSource} (hids : ids.Nonempty) (payload : Json) {turns : List Json}
    (hm : ModelFamily.ofModel model ≠ .claude) (h : Relayed turns)
    (hc : payload.field? "contents" = some (.array turns)) :
    ∃ document sent,
      (n.normalize (n.context requestId model stream) ids payload).result = .ok document ∧
      document.field? "contents" = some (.array sent) ∧
      InStep sent (fromUser sent) ∧
      ((∀ front turn, front ++ [turn] <+: turns → Misread (front ++ [turn]) →
        results [turn] = []) → InStep sent sent) ∧
      ∀ front turn back, turns = front ++ turn :: back → Misread (front ++ [turn]) →
        ∃ passed, sent[front.length]? = some passed ∧ Turn.role passed = .model ∧
          ∀ name, said "functionResponse" name [passed] = said "functionResponse" name [turn] := by
  obtain ⟨document, hd, hsent⟩ := sent_of_gemini n ht requestId model stream ids payload hc
  refine ⟨document, _, hd, hsent, Conversation.inStep_fromUser hids hm h,
    Conversation.inStep_delivered hids hm h, ?_⟩
  rintro front turn back rfl hread
  exact Conversation.said_misread hm (h.of_prefix ⟨back, by simp⟩).speaker hread back

theorem inStep_of_oneResult :
    ∃ document sent,
      (normalize { target := .gemini } (context { target := .gemini } "" "gemini" false) .counting
        (.object [("contents", .array separateResults.dropLast)])).result = .ok document ∧
      document.field? "contents" = some (.array sent) ∧ InStep sent sent := by
  have hread : ∀ front ∈ separateResults.dropLast.inits, ¬ Misread front := by decide
  obtain ⟨document, sent, hd, hs, -, hstep, -⟩ :=
    inStep_of_relayed { target := .gemini } rfl "" "gemini" false IdSource.nonempty_counting
      (.object [("contents", .array separateResults.dropLast)]) (by decide)
      (Conversation.relayed_separateResults.of_prefix (List.dropLast_prefix _)) rfl
  refine ⟨document, sent, hd, hs, hstep fun front turn hp hm => ?_⟩
  exact absurd hm (hread _ ((List.mem_inits ..).2 hp))

theorem not_inStep_separateResults :
    Relayed separateResults ∧
      ¬ ∃ document sent,
        (normalize { target := .gemini } (context { target := .gemini } "" "gemini" false) .counting
          (.object [("contents", .array separateResults)])).result = .ok document ∧
        document.field? "contents" = some (.array sent) ∧ InStep sent sent := by
  refine ⟨Conversation.relayed_separateResults, ?_⟩
  rintro ⟨document, sent, hd, hs, hstep⟩
  obtain ⟨other, ho, hsent⟩ := sent_of_gemini { target := .gemini } rfl "" "gemini" false .counting
    (.object [("contents", .array separateResults)]) rfl
  rw [ho] at hd
  cases hd
  rw [hsent] at hs
  cases hs
  obtain ⟨call, id, -, -, hid⟩ := hstep "g" 0
    [("name", .string "g"), ("response", .object [])] (by decide)
  cases hid

end Normalizer

end Dialogue
