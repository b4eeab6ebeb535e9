import Dialogue.Proofs.Conversation.Handles

namespace Dialogue

open Conversation

namespace Stage

variable {context : Context} {ids : IdSource} {document : Json} {turns linked : List Json}

/-- Each response comes out as it was or with the identifier of a call, the responses that came
without one take the calls to their function from the first on, and two responses have an identifier
in common only if one of them came with it and the other was given it. -/
theorem links_nodup_iff (ht : turns? context document = some turns)
    (hl : turns? context (Stage.links.apply context ids document).document = some linked)
    (h : Traceable turns linked) :
    List.Forall₂ Settled (userResponses turns) (userResponses linked) ∧
    (∀ name, ofFunction name (taken (userResponses turns) (userResponses linked)) <+:
      ofFunction name (handles (modelCalls linked))) ∧
    (((userResponses linked).filterMap Part.usableId?).Nodup ↔
      (handles (userResponses turns)).Disjoint
        (taken (userResponses turns) (userResponses linked))) := by
  rw [(links_yields context ids document).document, turns?_onTurns ht, Option.some.injEq] at hl
  subst hl
  have hledger := ledger_linkTurns h.speaker h.usable
  exact ⟨hledger.settled, fun name => ⟨_, (hledger.balance name).symm⟩, h.nodup_iff⟩

end Stage

def Body.inOrder : Json :=
  .object [("contents", .array [Turn.calling ["a", "b"], Turn.replying [none, some "b"]])]

def Body.answeredTwice : Json :=
  .object [("contents", .array [Turn.calling ["a"], Turn.replying [some "a", none]])]

theorem Stage.links_nodup_inOrder :
    ∃ linked,
      turns? .bare
        (Stage.links.apply .bare .counting
          Body.inOrder).document = some linked ∧
      (userResponses linked).filterMap Part.usableId? = [.string "a", .string "b"] ∧
      ((userResponses linked).filterMap Part.usableId?).Nodup := by
  have ht : turns? .bare Body.inOrder =
    some [Turn.calling ["a", "b"], Turn.replying [none, some "b"]] := rfl
  have hl : turns? .bare
    (Stage.links.apply .bare .counting
      Body.inOrder).document =
    some [Turn.calling ["a", "b"], Turn.replying [some "a", some "b"]] := rfl
  have h : Traceable [Turn.calling ["a", "b"], Turn.replying [none, some "b"]]
      [Turn.calling ["a", "b"], Turn.replying [some "a", some "b"]] :=
    ⟨by decide, by decide, by decide, by decide, by decide⟩
  exact ⟨_, hl, by decide, (links_nodup_iff ht hl h).2.2.2 (List.disjoint_left.2 (by decide))⟩

theorem Stage.answered_twice :
    ∃ turns linked,
      turns? .bare Body.answeredTwice =
        some turns ∧
      turns? .bare
        (Stage.links.apply .bare .counting
          Body.answeredTwice).document = some linked ∧
      Traceable turns linked ∧
      (userResponses linked).filterMap Part.usableId? = [.string "a", .string "a"] :=
  ⟨[Turn.calling ["a"], Turn.replying [some "a", none]],
    [Turn.calling ["a"], Turn.replying [some "a", some "a"]], rfl, rfl,
    ⟨by decide, by decide, by decide, by decide, by decide⟩, by decide⟩

end Dialogue
