import Dialogue.Proofs.Conversation.Endings
import Dialogue.Proofs.Sendable

namespace Dialogue

open Conversation (EndsIn Unfinished Answering EndsSilent fillRoles adapted responsesIn)

namespace Normalizer

theorem sent_of_turns (n : Normalizer) (requestId model : String) (stream : Bool) (ids : IdSource)
    (payload : Json) {turns : List Json} (hc : payload.field? "contents" = some (.array turns)) :
    ∃ document, (n.normalize (n.context requestId model stream) ids payload).result = .ok document ∧
      Stage.turns? (n.context requestId model stream) document =
        some (Conversation.delivered n.target (ModelFamily.ofModel model) ids turns) := by
  refine ⟨_, (normalize_yields n requestId model stream ids hc fun _ => ⟨turns, rfl⟩).result, ?_⟩
  rw [Stage.turns?_sealed, Body.field?_delivered_contents, Context.field?_bodyOf (by decide), hc]
  rfl

/-- What is sent does not end in a turn of the model that calls no function, but where the turn
before the last is such a turn and the last one is too and says nothing, or where responses stand
last and grouping drops some.  Bare, every conversation of the first kind is sent so. -/
theorem finished_of_claude (n : Normalizer) (requestId model : String) (stream : Bool)
    (ids : IdSource) (payload : Json) {turns : List Json}
    (hm : ModelFamily.ofModel model = .claude) (ho : ∀ turn ∈ turns, turn.isObject = true)
    (hc : payload.field? "contents" = some (.array turns)) :
    ∃ document sent,
      (n.normalize (n.context requestId model stream) ids payload).result = .ok document ∧
      Stage.turns? (n.context requestId model stream) document = some sent ∧
      (n.target = .gemini → (EndsIn Unfinished sent ↔ EndsSilent (fillRoles none turns))) ∧
      (n.target = .antigravity → EndsIn Unfinished sent →
        EndsSilent (fillRoles none turns) ∨ EndsIn Answering (adapted .claude turns) ∧
          responsesIn sent < responsesIn (adapted .claude turns)) := by
  obtain ⟨document, hd, hsent⟩ := sent_of_turns n requestId model stream ids payload hc
  rw [hm] at hsent
  refine ⟨document, _, hd, hsent, fun ht => ?_, fun ht h => ?_⟩
  · rw [ht]
    exact Conversation.endsIn_delivered_gemini ids turns
  · rw [ht] at h ⊢
    exact Conversation.endsIn_delivered_antigravity ids ho h

end Normalizer

namespace Conversation

def continuedRound : List Json :=
  [Turn.calling [none], Turn.replying [none],
    .object [("role", .string "model"), ("parts", .array [.object [("text", .string "So")]])]]

def brokenOff : List Json :=
  [.object [("role", .string "user"), ("parts", .array [.object [("text", .string "q")]])],
    .object [("role", .string "model"), ("parts", .array [.object [("text", .string "Let me")]])],
    .object [("role", .string "model"), ("parts", .array [
      .object [("text", .string "hm"), ("thought", .bool true)]])]]

end Conversation

open Conversation (continuedRound brokenOff)

namespace Normalizer

theorem finished_continuedRound :
    ∃ document sent,
      (normalize { target := .antigravity } (context { target := .antigravity } "" "claude" false)
        .counting (.object [("contents", .array continuedRound)])).result = .ok document ∧
      Stage.turns? (context { target := .antigravity } "" "claude" false) document = some sent ∧
      ¬ EndsIn Unfinished sent := by
  obtain ⟨document, sent, hd, hs, -, h⟩ :=
    finished_of_claude { target := .antigravity } "" "claude" false .counting
      (.object [("contents", .array continuedRound)]) (by decide) (by decide) rfl
  refine ⟨document, sent, hd, hs, fun he => ?_⟩
  rcases h rfl he with hsilent | ⟨hanswering, -⟩
  · exact absurd hsilent (by decide)
  · exact absurd hanswering (by decide)

theorem not_finished_brokenOff :
    (∀ turn ∈ brokenOff, turn.isObject = true) ∧
      ¬ ∃ document sent,
        (normalize { target := .gemini } (context { target := .gemini } "" "claude" false)
          .counting (.object [("contents", .array brokenOff)])).result = .ok document ∧
        Stage.turns? (context { target := .gemini } "" "claude" false) document = some sent ∧
        ¬ EndsIn Unfinished sent := by
  refine ⟨by decide, ?_⟩
  rintro ⟨document, sent, hd, hs, hfinished⟩
  obtain ⟨other, ho, hsent⟩ := sent_of_turns { target := .gemini } "" "claude" false .counting
    (.object [("contents", .array brokenOff)]) rfl
  rw [ho] at hd
  cases hd
  rw [hsent] at hs
  cases hs
  exact hfinished ((Conversation.endsIn_delivered_gemini ..).2 (by decide))

end Normalizer

end Dialogue
