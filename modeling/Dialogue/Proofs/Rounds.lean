import Dialogue.Proofs.Conversation.Rounds
import Dialogue.Proofs.Sendable

namespace Dialogue

namespace Conversation

def spoken (turn : Json) : String := String.join ((Turn.parts turn).filterMap spokenText?)

/-- The exchanges of a conversation that is closed: a plain turn of the model at its end gives way
to a user's turn that asks to continue it, or to nothing if it says nothing. -/
def Exchange.closing (family : ModelFamily) (exchanges : List Exchange) : List Exchange :=
  match exchanges.getLast? with
  | some (.plain turn) =>
    if family = .claude ∧ Turn.role turn = .model then
      exchanges.dropLast ++ (continuation (spoken turn)).map .plain
    else exchanges
  | _ => exchanges

theorem isLegal_of_wellFormed {exchange : Exchange} (h : exchange.WellFormed) :
    ∀ turn ∈ exchange.turns, (Turn.role turn).isLegal = true := by
  intro turn ht
  rw [isLegal_iff]
  cases exchange with
  | plain plain =>
    rw [List.mem_singleton.1 ht]
    exact IsPlain.role h
  | round call replies =>
    have hround : IsRound call replies := h
    cases ht with
    | head => exact .inr hround.role
    | tail _ ht => exact .inl (hround.repliers turn ht).1

theorem IsPlain.unfinishedText?_eq {turn : Json} (h : IsPlain turn) :
    unfinishedText? turn = if Turn.role turn = .model then some (spoken turn) else none := by
  obtain ⟨parts, hp, hplain⟩ := h.parts
  have hc : Turn.has .functionCall turn = false := by
    rw [Turn.has_eq_false_iff, Turn.parts_of_parts? hp]
    exact fun part hm => (kind_of_isPlain (hplain part hm)).1
  rw [unfinishedText?, hc]
  simp only [and_true]
  rfl

theorem lastUnfinished?_of_append (front : List Json) {back : List Json} (h : back ≠ []) :
    lastUnfinished? (front ++ back) = lastUnfinished? back := by
  rw [lastUnfinished?, List.getLast?_append_of_ne_nil _ h, lastUnfinished?]

theorem IsRound.lastUnfinished?_eq_none {call : Json} {replies : List Json}
    (h : IsRound call replies) : lastUnfinished? (call :: replies) = none := by
  rw [← List.singleton_append, lastUnfinished?_of_append _ h.replies_ne_nil, lastUnfinished?,
    List.getLast?_eq_some_getLast h.replies_ne_nil, Option.bind_some, unfinishedText?]
  have hr := (h.repliers _ (List.getLast_mem h.replies_ne_nil)).1
  rw [if_neg]
  rw [hr]
  exact fun hm => absurd hm.1 (by decide)

theorem closed_of_lastUnfinished?_eq_none {turns : List Json} (family : ModelFamily)
    (h : lastUnfinished? turns = none) : closed family turns = turns := by
  rw [closed, askToContinue, h]
  exact ite_self turns

theorem flatMap_turns_map_plain (turns : List Json) :
    (turns.map Exchange.plain).flatMap Exchange.turns = turns := by
  induction turns with
  | nil => rfl
  | cons turn rest ih => exact congrArg (turn :: ·) ih

theorem Exchange.closed_turns {exchanges : List Exchange} (family : ModelFamily)
    (h : ∀ exchange ∈ exchanges, exchange.WellFormed) :
    closed family (exchanges.flatMap turns) = (closing family exchanges).flatMap turns := by
  rcases List.eq_nil_or_concat exchanges with rfl | ⟨front, last, rfl⟩
  · exact closed_of_lastUnfinished?_eq_none family rfl
  · rw [List.concat_eq_append] at h ⊢
    have hlast := h last (List.mem_append_right _ (.head _))
    have hturns : (front ++ [last]).flatMap turns = front.flatMap turns ++ last.turns := by
      rw [List.flatMap_append, List.flatMap_singleton]
    rw [closing, List.getLast?_concat, List.dropLast_concat]
    cases last with
    | plain turn =>
      have hl : lastUnfinished? (front.flatMap turns ++ [turn]) = unfinishedText? turn :=
        lastUnfinished?_of_append _ (List.cons_ne_nil _ _)
      rw [IsPlain.unfinishedText?_eq hlast] at hl
      dsimp only
      split
      · next hc =>
        rw [if_pos hc.2] at hl
        rw [hturns, List.flatMap_append, flatMap_turns_map_plain, closed, if_pos hc.1,
          askToContinue, turns, hl]
        exact congrArg (· ++ continuation (spoken turn)) List.dropLast_concat
      · next hc =>
        rw [hturns, turns]
        by_cases hm : Turn.role turn = .model
        · exact if_neg fun hf => hc ⟨hf, hm⟩
        · rw [if_neg hm] at hl
          exact closed_of_lastUnfinished?_eq_none family hl
    | round call replies =>
      have hl := IsRound.lastUnfinished?_eq_none hlast
      rw [← lastUnfinished?_of_append (front.flatMap turns) (List.cons_ne_nil _ _)] at hl
      dsimp only
      rw [hturns]
      exact closed_of_lastUnfinished?_eq_none family hl

theorem Exchange.wellFormed_closing {exchanges : List Exchange} (family : ModelFamily)
    (h : ∀ exchange ∈ exchanges, exchange.WellFormed) :
    ∀ exchange ∈ closing family exchanges, exchange.WellFormed := by
  rw [closing]
  split
  · split
    · intro exchange hm
      rcases List.mem_append.1 hm with hm | hm
      · exact h exchange (List.dropLast_subset _ hm)
      · obtain ⟨turn, ht, rfl⟩ := List.mem_map.1 hm
        rw [continuation] at ht
        split at ht
        · cases ht
        · rw [List.mem_singleton.1 ht]
          exact isPlain_continueTurn _
    · exact h
  · exact h

theorem delivered_of_exchanges {exchanges : List Exchange} (family : ModelFamily) {ids : IdSource}
    (hids : ids.Nonempty) (h : ∀ exchange ∈ exchanges, exchange.WellFormed) :
    ∃ outs, List.Forall₂ (Exchange.Sent family) (Exchange.closing family exchanges) outs ∧
      delivered .antigravity family ids (exchanges.flatMap Exchange.turns) = outs.flatten := by
  have hfill : fillRoles none (exchanges.flatMap Exchange.turns) =
      exchanges.flatMap Exchange.turns := by
    apply fillRoles_of_legal
    intro turn ht
    obtain ⟨exchange, he, hm⟩ := List.mem_flatMap.1 ht
    exact isLegal_of_wellFormed (h exchange he) turn hm
  have hs : Linking.Settled { ids } := ⟨⟨CallRegistry.sound_initial, hids⟩, fun _ => rfl⟩
  obtain ⟨outs, hsent, hout, hidle⟩ := Exchange.run (Exchange.wellFormed_closing family h) family hs
    (g := {}) ⟨rfl, rfl⟩
  refine ⟨outs, hsent, ?_⟩
  rw [delivered, adapted, hfill, Exchange.closed_turns family h, grouped, if_pos (by decide),
    groupTurns, Grouper.finish, Grouper.flush]
  rw [List.nil_append] at hout
  rw [Stage.linked, hidle.pending]
  exact hout

end Conversation

open Conversation (Exchange)

/-- A request of rounds succeeds, and each round comes out as its calls and one turn of responses
that answer them. -/
theorem Normalizer.sent_of_exchanges (n : Normalizer) (ht : n.target = .antigravity)
    (requestId model : String) (stream : Bool) {ids : IdSource} (hids : ids.Nonempty)
    {payload : Json} {exchanges : List Exchange}
    (h : ∀ exchange ∈ exchanges, exchange.WellFormed)
    (hc : payload.field? "contents" = some (.array (exchanges.flatMap Exchange.turns))) :
    ∃ document outs,
      (n.normalize (n.context requestId model stream) ids payload).result = .ok document ∧
      document.get? ["request", "contents"] = some (.array outs.flatten) ∧
      List.Forall₂ (Exchange.Sent (ModelFamily.ofModel model))
        (Exchange.closing (ModelFamily.ofModel model) exchanges) outs := by
  obtain ⟨outs, hsent, hout⟩ :=
    Conversation.delivered_of_exchanges (ModelFamily.ofModel model) hids h
  have hy := normalize_yields n requestId model stream ids hc fun _ => ⟨_, rfl⟩
  refine ⟨_, outs, hy.result, ?_, hsent⟩
  have hctx : (n.context requestId model stream).target = .antigravity := ht
  have hfamily : (n.context requestId model stream).family = ModelFamily.ofModel model := rfl
  generalize n.context requestId model stream = context at hctx hfamily ⊢
  have hpath : context.conversationPath = ["request", "contents"] := by
    rw [Context.conversationPath, Context.path, hctx]
    rfl
  rw [← hpath, Context.get?_sealed, Body.field?_delivered_contents,
    Context.field?_bodyOf (by decide), hc, Option.map_some, hctx, hfamily, Json.onItems, hout]

def Conversation.crossedRound : Exchange :=
  .round
    (.object [("role", .string "model"), ("parts", .array [
      .object [("functionCall", .object [("name", .string "f")])],
      .object [("functionCall", .object [("name", .string "g"), ("id", .string "own")])]])])
    [.object [("role", .string "user"), ("parts", .array [
      .object [("functionResponse", .object [("name", .string "g"), ("response", .number "1")])],
      .object [("functionResponse", .object [("name", .string "f")])]])]]

theorem Conversation.wellFormed_crossedRound : crossedRound.WellFormed where
  role := rfl
  calls := by decide
  parts := by
    intro part hp
    change part ∈ [_, _] at hp
    rcases List.mem_pair.1 hp with rfl | rfl
    · exact .inr ⟨"f", _, rfl, rfl⟩
    · exact .inr ⟨"g", _, rfl, rfl⟩
  repliers := by
    intro reply hr
    rw [List.mem_singleton.1 hr]
    refine ⟨rfl, by decide, fun part hp => ?_⟩
    change part ∈ [_, _] at hp
    rcases List.mem_pair.1 hp with rfl | rfl
    · exact ⟨"g", rfl, _, rfl, rfl, rfl⟩
    · exact ⟨"f", rfl, _, rfl, rfl, rfl⟩
  names := by decide

theorem Normalizer.sent_of_crossedRound :
    ∃ document outs,
      (normalize { target := .antigravity } (context { target := .antigravity } "" "gemini" false)
        .counting (.object [("contents", .array Conversation.crossedRound.turns)])).result =
          .ok document ∧
      document.get? ["request", "contents"] = some (.array outs.flatten) ∧
      List.Forall₂ (Exchange.Sent (ModelFamily.ofModel "gemini"))
        (Exchange.closing (ModelFamily.ofModel "gemini") [Conversation.crossedRound]) outs :=
  sent_of_exchanges { target := .antigravity } rfl "" "gemini" false IdSource.nonempty_counting
    (fun _ h => List.mem_singleton.1 h ▸ Conversation.wellFormed_crossedRound) rfl

def Conversation.unfinishedTurn : Json :=
  .object [("role", .string "model"), ("parts", .array [.object [("text", .string "So")]])]

theorem Normalizer.not_sent_unfinishedTurn :
    (Exchange.plain Conversation.unfinishedTurn).WellFormed ∧
      ¬ ∃ document outs,
        (normalize { target := .antigravity } (context { target := .antigravity } "" "claude" false)
          .counting (.object [("contents", .array [Conversation.unfinishedTurn])])).result =
            .ok document ∧
        document.get? ["request", "contents"] = some (.array outs.flatten) ∧
        List.Forall₂ (Exchange.Sent (ModelFamily.ofModel "claude"))
          [.plain Conversation.unfinishedTurn] outs := by
  constructor
  · refine ⟨.inr rfl, _, rfl, fun part hp => ?_⟩
    rw [List.mem_singleton.1 hp]
    exact ⟨rfl, rfl⟩
  · rintro ⟨document, outs, hr, hd, hs⟩
    have hcomputed : (normalize { target := .antigravity }
        (context { target := .antigravity } "" "claude" false) .counting
        (.object [("contents", .array [Conversation.unfinishedTurn])])).result = .ok _ := rfl
    rw [hcomputed] at hr
    cases hr
    cases hs with
    | cons hsent hrest =>
      cases hrest
      cases hsent
      revert hd
      decide

end Dialogue
