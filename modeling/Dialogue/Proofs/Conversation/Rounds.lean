import Dialogue.Proofs.Conversation.Exchange

namespace Dialogue.Conversation

/-! ### Signed turns -/

def Marked (family : ModelFamily) (role : Role) (part : Json) : Prop :=
  family ≠ .claude ∧ role = .model ∧ needsMark part = true

instance (family : ModelFamily) (role : Role) (part : Json) :
    Decidable (Marked family role part) := inferInstanceAs (Decidable (_ ∧ _ ∧ _))

def signedPart (family : ModelFamily) (role : Role) (part : Json) : Json :=
  if Marked family role part then part.putField signatureKey (.string skipMark) else part

theorem field?_signedPart_of_ne {key : String} (hk : key ≠ signatureKey) (family : ModelFamily)
    (role : Role) (part : Json) : (signedPart family role part).field? key = part.field? key := by
  rw [signedPart]
  split
  · exact Json.field?_putField_of_ne hk ..
  · rfl

theorem signedTurn_of_parts? {family : ModelFamily} {turn : Json} {parts : List Json}
    (hp : Turn.parts? turn = some parts) :
    signedTurn family turn =
      Turn.withParts turn (parts.map (signedPart family (Turn.role turn))) := by
  have hfixed : Turn.withParts turn parts = turn :=
    Json.putField_of_field? (Turn.field?_of_parts? hp)
  rw [signedTurn]
  split
  · next hf =>
    have hid : parts.map (signedPart family (Turn.role turn)) = parts :=
      (List.map_congr_left fun part _ => if_neg fun h => h.1 hf).trans (List.map_id parts)
    rw [hid, hfixed]
  · next hf =>
    rw [markTurn, hp]
    split
    · next hr hs =>
      cases hs
      congr 1
      refine List.map_congr_left fun part _ => ?_
      by_cases hn : needsMark part = true
      · rw [markPart, signedPart, if_pos hn, if_pos ⟨hf, hr, hn⟩]
      · rw [markPart, signedPart, if_neg hn, if_neg fun h => hn h.2.2]
    · next hr =>
      have hid : parts.map (signedPart family (Turn.role turn)) = parts :=
        (List.map_congr_left fun part _ => if_neg fun h => hr _ h.2.1 rfl).trans (List.map_id parts)
      rw [hid, hfixed]

theorem signedTurn_of_parts?_eq_none {turn : Json} (hp : Turn.parts? turn = none)
    (family : ModelFamily) : signedTurn family turn = turn := by
  rw [signedTurn, markTurn, hp]
  cases Turn.role turn <;> exact ite_self _

theorem parts_signedTurn (family : ModelFamily) (turn : Json) :
    Turn.parts (signedTurn family turn) =
      (Turn.parts turn).map (signedPart family (Turn.role turn)) := by
  cases hp : Turn.parts? turn with
  | none =>
    rw [signedTurn_of_parts?_eq_none hp, Turn.parts, hp]
    rfl
  | some parts =>
    rw [signedTurn_of_parts? hp, Turn.parts_withParts (Turn.isObject_of_parts? hp),
      Turn.parts_of_parts? hp]

theorem isObject_signedTurn (family : ModelFamily) (turn : Json) :
    (signedTurn family turn).isObject = turn.isObject := by
  rw [signedTurn]
  split
  · rfl
  · exact isObject_markTurn turn

theorem role_signedTurn (family : ModelFamily) (turn : Json) :
    Turn.role (signedTurn family turn) = Turn.role turn := by
  rw [signedTurn]
  split
  · rfl
  · exact role_markTurn turn

theorem signedTurn_of_role {family : ModelFamily} {turn : Json} (h : Turn.role turn ≠ .model) :
    signedTurn family turn = turn := by
  rw [signedTurn]
  split
  · rfl
  · rw [markTurn]
    split
    · next hr _ => exact absurd hr h
    · rfl

theorem count_signedTurn (kind : PartKind) (family : ModelFamily) (turn : Json) :
    Turn.count kind (signedTurn family turn) = Turn.count kind turn := by
  have hkind : ∀ part, Part.kind (signedPart family (Turn.role turn) part) = Part.kind part :=
    fun _ => Part.kind_congr (field?_signedPart_of_ne (by decide) ..)
      (field?_signedPart_of_ne (by decide) ..) (field?_signedPart_of_ne (by decide) ..)
      (field?_signedPart_of_ne (by decide) ..)
  rw [Turn.count, parts_signedTurn, List.filter_map, List.length_map, Turn.count]
  simp only [Function.comp_def, hkind]

theorem idsUnder_signedTurn {key : String} (h : key ≠ signatureKey) (name : String)
    (family : ModelFamily) (turn : Json) :
    idsUnder key name (Turn.parts (signedTurn family turn)) =
      idsUnder key name (Turn.parts turn) := by
  rw [parts_signedTurn, idsUnder, List.filterMap_map, idsUnder]
  congr 1
  funext part
  rw [Function.comp, idUnder?, field?_signedPart_of_ne h, idUnder?]

theorem isGroup_eq_false_of_count {turn : Json} (h : Turn.count .functionResponse turn = 0) :
    isGroup turn = false := by
  cases hg : isGroup turn with
  | false => rfl
  | true =>
    rw [isGroup, Turn.has_eq_true_iff, h] at hg
    cases hg

/-! ### Grouping a round -/

namespace Grouper

structure Idle (g : Grouper) : Prop where
  pending : g.pending = []
  waiting : g.waiting = []

theorem push_replies (g : Grouper) {reply : Json} (h : HoldsResponses reply) :
    g.push reply = settleNewest { g with waiting := g.waiting ++ Turn.parts reply } :=
  push_of_responses g h.parts h.responses

theorem push_replies_of_pending {g : Grouper} {needed : Nat} {reply : Json}
    (h : HoldsResponses reply) (hp : g.pending = [needed]) :
    g.push reply =
      if needed ≤ (g.waiting ++ Turn.parts reply).length then
        emit { g with pending := [], waiting := g.waiting ++ Turn.parts reply } needed
      else { g with waiting := g.waiting ++ Turn.parts reply } := by
  rw [push_replies g h, settleNewest]
  dsimp only
  rw [hp, takeNewest?, takeNewest?]
  dsimp only
  by_cases hle : needed ≤ (g.waiting ++ Turn.parts reply).length
  · rw [if_pos hle, if_pos hle]
  · rw [if_neg hle, if_neg hle]

theorem push_last_replies {g : Grouper} {needed : Nat} {reply : Json} (h : HoldsResponses reply)
    (hp : g.pending = [needed]) (hn : (g.waiting ++ Turn.parts reply).length = needed) :
    (g.push reply).output =
        g.output ++ [groupTurn ((g.waiting ++ Turn.parts reply).map repairResponse)] ∧
      (g.push reply).Idle := by
  have htake : (g.waiting ++ Turn.parts reply).take needed = g.waiting ++ Turn.parts reply :=
    List.take_of_length_le (Nat.le_of_eq hn)
  have hne : (g.waiting ++ Turn.parts reply).take needed ≠ [] := by
    rw [htake]
    exact List.append_ne_nil_of_right_ne_nil _ h.parts
  rw [push_replies_of_pending h hp, if_pos (Nat.le_of_eq hn.symm), emit_of_ne_nil hne]
  dsimp only
  rw [htake]
  exact ⟨rfl, rfl, List.drop_eq_nil_of_le (Nat.le_of_eq hn)⟩

theorem pushAll_replies {g : Grouper} {needed : Nat} {replies : List Json} (hne : replies ≠ [])
    (h : ∀ reply ∈ replies, HoldsResponses reply) (hp : g.pending = [needed])
    (hn : (g.waiting ++ replies.flatMap Turn.parts).length = needed) :
    (g.pushAll replies).output = g.output ++
        [groupTurn ((g.waiting ++ replies.flatMap Turn.parts).map repairResponse)] ∧
      (g.pushAll replies).Idle := by
  induction replies generalizing g with
  | nil => exact absurd rfl hne
  | cons reply rest ih =>
    have hreply := h reply (.head _)
    rw [List.flatMap_cons, ← List.append_assoc] at hn ⊢
    rw [pushAll, List.foldl_cons, ← pushAll]
    cases rest with
    | nil =>
      rw [List.flatMap_nil, List.append_nil] at hn ⊢
      exact push_last_replies hreply hp hn
    | cons next later =>
      -- Responses are still to come, so the group cannot be filled yet.
      have hlt : ¬ needed ≤ (g.waiting ++ Turn.parts reply).length := by
        have hnext := List.length_pos_iff.2 (h next (.tail _ (.head _))).parts
        simp only [List.flatMap_cons, List.length_append] at hn ⊢
        omega
      rw [push_replies_of_pending hreply hp, if_neg hlt]
      exact ih (List.cons_ne_nil _ _) (fun r hm => h r (.tail _ hm)) hp hn

end Grouper

/-! ### Exchanges -/

theorem linkParts_of_fixed {role : Role} {state : Linking} {parts : List Json}
    (h : ∀ part ∈ parts, linkPart role state part = (state, part)) :
    linkParts role state parts = (state, parts) := by
  induction parts with
  | nil => rfl
  | cons part rest ih =>
    rw [linkParts, h part (.head _)]
    dsimp only
    rw [ih fun p hp => h p (.tail _ hp)]

theorem linkPart_of_isPlain (role : Role) (state : Linking) {part : Json} (h : Part.IsPlain part) :
    linkPart role state part = (state, part) := by
  have hm : linkModelPart state part = (state, part) := by rw [linkModelPart, h.call]
  have hr : linkReplyPart state part = (state, part) := by rw [linkReplyPart, h.response]
  cases role with
  | model => exact hm
  | user => exact hr
  | function => exact hr
  | unset => rfl
  | invalid => rfl

theorem IsPlain.linkTurn {turn : Json} (h : IsPlain turn) (state : Linking) :
    linkTurn state turn = (state, turn) := by
  obtain ⟨parts, hp, hplain⟩ := h.parts
  rw [Conversation.linkTurn, hp]
  dsimp only
  rw [linkParts_of_fixed fun part hm => linkPart_of_isPlain _ state (hplain part hm)]
  exact congrArg (state, ·) (Json.putField_of_field? (Turn.field?_of_parts? hp))

theorem isPlain_continueTurn (text : String) : IsPlain (continueTurn text) where
  role := .inl rfl
  parts := by
    refine ⟨_, rfl, fun part hp => ?_⟩
    rw [List.mem_singleton.1 hp]
    exact ⟨rfl, rfl⟩

theorem kind_of_isPlain {part : Json} (h : Part.IsPlain part) :
    Part.kind part ≠ .functionCall ∧ Part.kind part ≠ .functionResponse := by
  constructor
  · intro hk
    obtain ⟨fields, hf⟩ := Part.isCall_iff.1 (decide_eq_true hk)
    rw [h.call] at hf
    cases hf
  · intro hk
    have hr : Part.isResponse part = true := decide_eq_true hk
    rw [Part.isResponse_eq, h.response] at hr
    simp at hr

theorem count_eq_zero {kind : PartKind} {turn : Json}
    (h : ∀ part ∈ Turn.parts turn, Part.kind part ≠ kind) : Turn.count kind turn = 0 := by
  rw [Turn.count, List.length_eq_zero_iff, List.filter_eq_nil_iff]
  intro part hp
  simpa using h part hp

theorem Grouper.push_of_counts (g : Grouper) {turn : Json} (ho : turn.isObject = true)
    (hc : Turn.openedCalls turn = 0) (hr : Turn.count .functionResponse turn = 0) :
    g.push turn = { g with output := g.output ++ [turn] } := by
  rw [g.push_of_isGroup_eq_false ho (isGroup_eq_false_of_count hr), pushPlain, hc]
  rfl

theorem IsPlain.push {turn : Json} (h : IsPlain turn) (family : ModelFamily) (g : Grouper) :
    g.push (signedTurn family turn) =
      { g with output := g.output ++ [signedTurn family turn] } := by
  obtain ⟨parts, hp, hplain⟩ := h.parts
  rw [← Turn.parts_of_parts? hp] at hplain
  apply g.push_of_counts
  · rw [isObject_signedTurn, Turn.isObject_of_parts? hp]
  · rw [Turn.openedCalls, count_signedTurn,
      count_eq_zero fun part hm => (kind_of_isPlain (hplain part hm)).1]
    exact ite_self 0
  · rw [count_signedTurn, count_eq_zero fun part hm => (kind_of_isPlain (hplain part hm)).2]

/-! ### Rounds -/

theorem count_of_identified {call : Json} {parts : List Json} (ho : call.isObject = true)
    (h : List.Forall₂ Identified (Turn.parts call) parts) (kind : PartKind) :
    Turn.count kind (Turn.withParts call parts) = Turn.count kind call := by
  rw [Turn.count, Turn.parts_withParts ho, Turn.count]
  generalize Turn.parts call = before at h
  induction h with
  | nil => rfl
  | cons hi _ ih =>
    rw [List.filter_cons, List.filter_cons, hi.kind]
    split
    · exact congrArg Nat.succ ih
    · exact ih

theorem kind_of_calls {name : String} {part : Json} (h : Part.Calls name part) :
    Part.kind part = .functionCall := by
  obtain ⟨fields, hc, -⟩ := h
  exact Part.kind_of_functionCall hc

namespace IsRound

variable {call : Json} {replies : List Json}

theorem count_calls (h : IsRound call replies) :
    Turn.count .functionCall call = (namesUnder "functionCall" (Turn.parts call)).length := by
  rw [Turn.count, ← List.countP_eq_length_filter, namesUnder, List.length_filterMap_eq_countP]
  apply List.countP_congr
  intro part hp
  rcases h.parts part hp with hplain | ⟨name, hcalls⟩
  · simpa [nameUnder?_of_isPlain hplain] using (kind_of_isPlain hplain).1
  · simp [nameUnder?_of_calls hcalls, kind_of_calls hcalls]

theorem count_responses (h : IsRound call replies) : Turn.count .functionResponse call = 0 := by
  apply count_eq_zero
  intro part hp
  rcases h.parts part hp with hplain | ⟨name, hcalls⟩
  · exact (kind_of_isPlain hplain).2
  · rw [kind_of_calls hcalls]
    exact nofun

theorem length_replies (h : IsRound call replies) :
    (replies.flatMap Turn.parts).length = Turn.count .functionCall call := by
  have hall : ∀ part ∈ replies.flatMap Turn.parts,
      (nameUnder? "functionResponse" part).isSome = true := by
    intro part hp
    obtain ⟨name, hr⟩ := h.replies_parts part hp
    rw [nameUnder?_of_replies hr]
    rfl
  rw [h.count_calls, ← h.names.length_eq, namesUnder, List.filterMap_length_eq_length.2 hall]

theorem replies_ne_nil (h : IsRound call replies) : replies ≠ [] := by
  rintro rfl
  exact h.calls h.names.symm.eq_nil

end IsRound

theorem usableId?_append_usableId? {front fields : Members} (h : Members.get? "id" front = none) :
    Part.usableId? (front ++ (Part.usableId? fields).toList.map ("id", ·)) =
      Part.usableId? fields := by
  have happ : ∀ back, Members.get? "id" (front ++ back) = Members.get? "id" back := by
    intro back
    induction front with
    | nil => rfl
    | cons m rest ih =>
      rw [Members.get?] at h
      split at h
      · cases h
      · next hk => rw [List.cons_append, Members.get?, if_neg hk, ih h]
  cases hid : Part.usableId? fields with
  | none => rw [Part.usableId?, happ]; rfl
  | some id =>
    rw [Part.usableId?_eq_some, happ]
    exact ⟨rfl, (Part.usableId?_eq_some.1 hid).2⟩

theorem idUnder?_repairResponse {part : Json} {fields : Members} {called : String}
    (hf : part.field? "functionResponse" = some (.object fields))
    (hn : Members.get? "name" fields = some (.string called)) (name : String) :
    idUnder? "functionResponse" name (repairResponse part) =
      idUnder? "functionResponse" name part := by
  rw [repairResponse, hf]
  dsimp only
  split
  · rfl
  · rfl
  · rw [idUnder?_of_field? hf, functionName_of_get? hn, hn, idUnder?_of_field? rfl,
      usableId?_append_usableId? rfl]
    rfl

theorem idsUnder_repaired {parts answers : List Json}
    (h : List.Forall₂ Answered parts answers)
    (hr : ∀ part ∈ parts, ∃ name, Part.Replies name part) (name : String) :
    idsUnder "functionResponse" name (answers.map repairResponse) =
      idsUnder "functionResponse" name answers := by
  rw [idsUnder, List.filterMap_map, idsUnder]
  apply List.filterMap_congr
  intro answered hm
  obtain ⟨part, hp, fields, id, hf, -, rfl⟩ := exists_of_mem_right h hm
  obtain ⟨called, -, fields', hf', hn, -⟩ := hr part hp
  rw [hf] at hf'
  cases hf'
  apply idUnder?_repairResponse (Json.field?_putField_self (Json.isObject_of_field? hf) ..)
  rw [Members.get?_put_of_ne (by decide)]
  exact hn

namespace LinkedRound

variable {call : Json} {replies parts linked : List Json}

theorem length_linked (hl : LinkedRound call replies parts linked) (h : IsRound call replies) :
    (linked.flatMap Turn.parts).length = Turn.count .functionCall call := by
  rw [← hl.answered.length_eq, h.length_replies]

theorem linked_ne_nil (hl : LinkedRound call replies parts linked) (h : IsRound call replies) :
    linked ≠ [] := by
  rintro rfl
  have hzero := hl.length_linked h
  rw [h.count_calls] at hzero
  exact h.calls (List.length_eq_zero_iff.1 hzero.symm)

theorem signed_linked (hl : LinkedRound call replies parts linked) (family : ModelFamily) :
    signed family linked = linked := by
  rw [signed, List.map_congr_left (g := id), List.map_id]
  intro reply hm
  apply signedTurn_of_role
  rw [(hl.replies reply hm).role]
  exact nofun

theorem push_call (hl : LinkedRound call replies parts linked) (h : IsRound call replies)
    (family : ModelFamily) {g : Grouper} (hg : g.Idle) :
    g.push (signedTurn family (Turn.withParts call parts)) =
      { g with
        output := g.output ++ [signedTurn family (Turn.withParts call parts)]
        pending := [Turn.count .functionCall call] } := by
  have ho := Turn.isObject_of_parts_ne_nil h.calls_ne_nil
  have hopened : Turn.openedCalls (signedTurn family (Turn.withParts call parts)) =
      Turn.count .functionCall call := by
    rw [Turn.openedCalls_of_role, count_signedTurn, count_of_identified ho hl.identified]
    rw [role_signedTurn, Turn.role_withParts, h.role]
  have hpos : Turn.count .functionCall call ≠ 0 := by
    rw [h.count_calls]
    exact fun hz => h.calls (List.length_eq_zero_iff.1 hz)
  rw [g.push_of_isGroup_eq_false, Grouper.pushPlain, hopened, if_neg hpos, hg.pending]
  · rfl
  · rw [isObject_signedTurn, Turn.isObject_withParts, ho]
  · apply isGroup_eq_false_of_count
    rw [count_signedTurn, count_of_identified ho hl.identified, h.count_responses]

theorem pushAll (hl : LinkedRound call replies parts linked) (h : IsRound call replies)
    (family : ModelFamily) {g : Grouper} (hg : g.Idle) :
    (g.pushAll (signed family (Turn.withParts call parts :: linked))).output =
        g.output ++ [signedTurn family (Turn.withParts call parts),
          groupTurn ((linked.flatMap Turn.parts).map repairResponse)] ∧
      (g.pushAll (signed family (Turn.withParts call parts :: linked))).Idle := by
  rw [signed, List.map_cons, ← signed, hl.signed_linked family, Grouper.pushAll, List.foldl_cons,
    hl.push_call h family hg, ← Grouper.pushAll]
  obtain ⟨hout, hidle⟩ := Grouper.pushAll_replies (g := { g with
      output := g.output ++ [signedTurn family (Turn.withParts call parts)]
      pending := [Turn.count .functionCall call] }) (hl.linked_ne_nil h) hl.replies rfl
    (by rw [hg.waiting, List.nil_append, hl.length_linked h])
  refine ⟨?_, hidle⟩
  rw [hout, hg.waiting, List.append_assoc]
  rfl

theorem paired (hl : LinkedRound call replies parts linked) (h : IsRound call replies)
    (family : ModelFamily) :
    Paired family call replies (signedTurn family (Turn.withParts call parts))
      (groupTurn ((linked.flatMap Turn.parts).map repairResponse)) where
  called := ⟨parts, hl.identified, rfl⟩
  gathered := ⟨_, hl.answered, rfl⟩
  paired := by
    intro name
    rw [parts_groupTurn, idsUnder_repaired hl.answered h.replies_parts, hl.matching,
      idsUnder_signedTurn (by decide),
      Turn.parts_withParts (Turn.isObject_of_parts_ne_nil h.calls_ne_nil)]

end LinkedRound

theorem Exchange.step {exchange : Exchange} (h : exchange.WellFormed) (family : ModelFamily)
    {state : Linking} (hs : state.Settled) {g : Grouper} (hg : g.Idle) :
    ∃ out, exchange.Sent family out ∧ (linkTurns state exchange.turns).1.Settled ∧
      (g.pushAll (signed family (linkTurns state exchange.turns).2)).output = g.output ++ out ∧
      (g.pushAll (signed family (linkTurns state exchange.turns).2)).Idle := by
  cases exchange with
  | plain turn =>
    have hplain : IsPlain turn := h
    have ht : linkTurns state (Exchange.plain turn).turns = (state, [turn]) := by
      rw [turns, linkTurns, linkTurns, hplain.linkTurn]
    have hp : g.pushAll (signed family [turn]) =
        { g with output := g.output ++ [signedTurn family turn] } := hplain.push family g
    rw [ht, hp]
    exact ⟨_, .plain, hs, rfl, hg.pending, hg.waiting⟩
  | round call replies =>
    obtain ⟨parts, linked, hl, ht, hs'⟩ := hs.round h
    obtain ⟨hout, hidle⟩ := hl.pushAll h family hg
    rw [turns, ht]
    exact ⟨_, .round (hl.paired h family), hs', hout, hidle⟩

theorem Exchange.run {exchanges : List Exchange} (h : ∀ exchange ∈ exchanges, exchange.WellFormed)
    (family : ModelFamily) {state : Linking} (hs : state.Settled) {g : Grouper} (hg : g.Idle) :
    ∃ outs, List.Forall₂ (Exchange.Sent family) exchanges outs ∧
      (g.pushAll (signed family (linkTurns state (exchanges.flatMap turns)).2)).output =
        g.output ++ outs.flatten ∧
      (g.pushAll (signed family (linkTurns state (exchanges.flatMap turns)).2)).Idle := by
  induction exchanges generalizing state g with
  | nil => exact ⟨[], .nil, (List.append_nil _).symm, hg⟩
  | cons exchange rest ih =>
    obtain ⟨out, hsent, hs', hout, hidle⟩ := step (h exchange (.head _)) family hs hg
    obtain ⟨outs, hrest, houts, hidle'⟩ := ih (fun e hm => h e (.tail _ hm)) hs' hidle
    have hpush : g.pushAll (signed family (linkTurns state ((exchange :: rest).flatMap turns)).2) =
        (g.pushAll (signed family (linkTurns state exchange.turns).2)).pushAll
          (signed family
            (linkTurns (linkTurns state exchange.turns).1 (rest.flatMap turns)).2) := by
      rw [List.flatMap_cons, linkTurns_append, signed, List.map_append, Grouper.pushAll,
        List.foldl_append]
      rfl
    rw [hpush, houts, hout, List.append_assoc]
    exact ⟨out :: outs, .cons hsent hrest, rfl, hidle'⟩

end Dialogue.Conversation
