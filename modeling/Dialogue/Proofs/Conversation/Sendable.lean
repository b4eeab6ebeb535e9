import Dialogue.Proofs.Conversation.Links
import Dialogue.Proofs.Conversation.Roles
import Dialogue.Proofs.Delivery
import Dialogue.Proofs.Grouping.Shares

namespace Dialogue

open Conversation (signatureKey skipMark shortestSignature)

/-- What is asked of a part of the model's turn. -/
structure Part.Sendable (family : ModelFamily) (part : Json) : Prop where
  identified : ∀ fields, part.field? "functionCall" = some (.object fields) →
    ∃ id, Members.get? "id" fields = some id ∧ id ≠ .null ∧ id ≠ .string ""
  reasoning : family ≠ .claude → isThought part = true →
    part.field? signatureKey = some (.string skipMark)
  calling : family ≠ .claude → isCall part = true →
    ∃ signature, part.field? signatureKey = some (.string signature) ∧
      (signature = skipMark ∨ shortestSignature ≤ signature.utf8ByteSize)

structure Part.Gathered (part : Json) : Prop where
  isResponse : Part.isResponse part = true
  result : ∃ fields, part.field? "functionResponse" = some (.object fields) ∧
    ∀ result, Members.get? "response" fields = some result → result.isObject = true

namespace Turn

def IsGathering (turn : Json) : Prop :=
  ∃ responses, responses ≠ [] ∧ (∀ part ∈ responses, Part.Gathered part) ∧
    turn = .object [("parts", .array responses), ("role", .string "function")]

/-- What is asked of a turn, besides what is asked of the model's parts. -/
def Permitted (target : Target) (turn : Json) : Prop :=
  match target with
  | .gemini => turn.isObject = true → role turn = .user ∨ role turn = .model
  | .antigravity => turn.isObject = true ∧
      (IsGathering turn ∨ (role turn = .user ∨ role turn = .model) ∧
        ∀ part ∈ parts turn, Part.kind part ≠ .functionResponse)

structure Sendable (target : Target) (family : ModelFamily) (turn : Json) : Prop where
  permitted : Permitted target turn
  parts : role turn = .model → ∀ part ∈ parts turn, Part.Sendable family part

end Turn

namespace Conversation

theorem exists_of_mem_right {α β : Type} {R : α → β → Prop} {xs : List α} {ys : List β} {y : β}
    (h : List.Forall₂ R xs ys) (hy : y ∈ ys) : ∃ x ∈ xs, R x y := by
  induction h with
  | nil => cases hy
  | cons hr _ ih =>
    cases hy with
    | head => exact ⟨_, .head _, hr⟩
    | tail _ hy =>
      obtain ⟨x, hx, hxy⟩ := ih hy
      exact ⟨x, .tail _ hx, hxy⟩

def Spoken (turn : Json) : Prop :=
  turn.isObject = true → Turn.role turn = .user ∨ Turn.role turn = .model

theorem spoken_fillRoles {previous : Option Role} {turns : List Json} :
    ∀ turn ∈ fillRoles previous turns, Spoken turn := by
  induction turns generalizing previous with
  | nil => nofun
  | cons turn rest ih =>
    rw [fillRoles]
    split
    · next hl =>
      intro t ht
      cases ht with
      | head => exact fun _ => isLegal_iff.1 hl
      | tail _ ht => exact ih t ht
    · split
      · next ho =>
        intro t ht
        cases ht with
        | head =>
          intro _
          rw [role_withRole ho (isLegal_inferRole previous)]
          exact isLegal_iff.1 (isLegal_inferRole previous)
        | tail _ ht => exact ih t ht
      · next ho =>
        intro t ht
        cases ht with
        | head => exact fun h => absurd h ho
        | tail _ ht => exact ih t ht

theorem spoken_closed {family : ModelFamily} {turns : List Json} (h : ∀ turn ∈ turns, Spoken turn) :
    ∀ turn ∈ closed family turns, Spoken turn := by
  rw [closed]
  split
  · rw [askToContinue]
    split
    · next text _ =>
      intro turn ht
      rcases List.mem_append.1 ht with ht | ht
      · exact h turn (List.dropLast_subset _ ht)
      · rw [continuation] at ht
        split at ht
        · cases ht
        · rw [List.mem_singleton.1 ht]
          exact fun _ => .inl rfl
    · exact h
  · exact h

def CallsIdentified (turn : Json) : Prop :=
  Turn.role turn = .model → ∀ part ∈ Turn.parts turn, ∀ fields,
    part.field? "functionCall" = some (.object fields) →
      ∃ id, Members.get? "id" fields = some id ∧ Part.IsUsable id

theorem Linked.spoken {turn linked : Json} (h : Linked turn linked) (hs : Spoken turn) :
    Spoken linked := by
  intro ho
  rw [h.role]
  exact hs (h.isObject ▸ ho)

theorem Linked.callsIdentified {turn linked : Json} (h : Linked turn linked) :
    CallsIdentified linked := by
  intro hr part hp fields hc
  obtain ⟨_, _, hi⟩ := exists_of_mem_right (h.identified (h.role ▸ hr)) hp
  exact hi.isUsable hc

def PartsSendable (family : ModelFamily) (turn : Json) : Prop :=
  Turn.role turn = .model → ∀ part ∈ Turn.parts turn, Part.Sendable family part

theorem field?_markPart_of_ne {key : String} (hk : key ≠ signatureKey) (part : Json) :
    (markPart part).field? key = part.field? key := by
  rw [markPart]
  split
  · exact Json.field?_putField_of_ne hk ..
  · rfl

theorem kind_markPart (part : Json) : Part.kind (markPart part) = Part.kind part :=
  Part.kind_congr (field?_markPart_of_ne (by decide) part) (field?_markPart_of_ne (by decide) part)
    (field?_markPart_of_ne (by decide) part) (field?_markPart_of_ne (by decide) part)

theorem isThought_markPart (part : Json) :
    Part.isThought (markPart part) = Part.isThought part := by
  rw [Part.isThought, Part.isThought, field?_markPart_of_ne (by decide)]

theorem signature_of_needsMark {part : Json} (h : needsMark part = true)
    (ho : part.isObject = true) :
    (markPart part).field? signatureKey = some (.string skipMark) := by
  rw [markPart, if_pos h, Json.field?_putField_self ho]

theorem exists_signature_of_hasUsableSignature {part : Json} (h : hasUsableSignature part = true) :
    ∃ signature, part.field? signatureKey = some (.string signature) ∧
      shortestSignature ≤ signature.utf8ByteSize := by
  rw [hasUsableSignature] at h
  split at h
  · next signature hs => exact ⟨signature, hs, of_decide_eq_true h⟩
  · cases h

theorem sendable_markPart {family : ModelFamily} {part : Json}
    (h : ∀ fields, part.field? "functionCall" = some (.object fields) →
      ∃ id, Members.get? "id" fields = some id ∧ Part.IsUsable id) :
    Part.Sendable family (markPart part) where
  identified := by
    intro fields hc
    rw [field?_markPart_of_ne (by decide)] at hc
    exact h fields hc
  reasoning := by
    intro _ ht
    rw [isThought_markPart] at ht
    apply signature_of_needsMark
    · rw [needsMark, ht]
      rfl
    · exact Json.isObject_of_field? (of_decide_eq_true ht)
  calling := by
    intro _ hc
    rw [Part.isCall, kind_markPart, ← Part.isCall] at hc
    cases hn : needsMark part with
    | true =>
      obtain ⟨fields, hf⟩ := Part.isCall_iff.1 hc
      exact ⟨skipMark, signature_of_needsMark hn (Json.isObject_of_field? hf), .inl rfl⟩
    | false =>
      have hu : hasUsableSignature part = true := by
        rw [needsMark, hc, Bool.true_and, Bool.or_eq_false_iff] at hn
        simpa using hn.2
      obtain ⟨signature, hs, hl⟩ := exists_signature_of_hasUsableSignature hu
      rw [markPart, if_neg (by rw [hn]; exact Bool.false_ne_true)]
      exact ⟨signature, hs, .inr hl⟩

theorem isObject_markTurn (turn : Json) : (markTurn turn).isObject = turn.isObject := by
  rw [markTurn]
  split
  · exact Turn.isObject_withParts ..
  · rfl

theorem role_markTurn (turn : Json) : Turn.role (markTurn turn) = Turn.role turn := by
  rw [markTurn]
  split
  · exact Turn.role_withParts ..
  · rfl

theorem partsSendable_markTurn (family : ModelFamily) {turn : Json} (h : CallsIdentified turn) :
    PartsSendable family (markTurn turn) := by
  intro hr
  rw [role_markTurn] at hr
  rw [markTurn, hr]
  cases hp : Turn.parts? turn with
  | none =>
    intro part hm
    simp [Turn.parts, hp] at hm
  | some parts =>
    intro part hm
    dsimp only at hm
    rw [Turn.parts_withParts (Turn.isObject_of_parts? hp)] at hm
    obtain ⟨before, hb, rfl⟩ := List.mem_map.1 hm
    apply sendable_markPart
    exact h hr before (by rwa [Turn.parts_of_parts? hp])

theorem sendable_signedTurn {family : ModelFamily} {turn : Json} (hs : Spoken turn)
    (hi : CallsIdentified turn) :
    Spoken (signedTurn family turn) ∧ PartsSendable family (signedTurn family turn) := by
  rw [signedTurn]
  split
  · next hf =>
    exact ⟨hs, fun hr part hp => ⟨hi hr part hp, fun hn => absurd hf hn, fun hn => absurd hf hn⟩⟩
  · refine ⟨fun ho => ?_, partsSendable_markTurn family hi⟩
    rw [role_markTurn]
    exact hs (isObject_markTurn turn ▸ ho)

theorem sendable_signed {family : ModelFamily} {turns : List Json}
    (h : ∀ turn ∈ turns, Spoken turn ∧ CallsIdentified turn) :
    ∀ turn ∈ signed family turns, Spoken turn ∧ PartsSendable family turn := by
  intro turn ht
  obtain ⟨before, hb, rfl⟩ := List.mem_map.1 ht
  exact sendable_signedTurn (h before hb).1 (h before hb).2

theorem callsIdentified_linked {ids : IdSource} (hids : ids.Nonempty) (turns : List Json) :
    ∀ turn ∈ Stage.linked ids turns, CallsIdentified turn := by
  intro turn ht
  have hs : Linking.Sound { ids } := ⟨CallRegistry.sound_initial, hids⟩
  obtain ⟨before, -, hl⟩ := exists_of_mem_right (linkTurns_linked hs turns) ht
  exact hl.callsIdentified

theorem sendable_linked {ids : IdSource} (hids : ids.Nonempty) {turns : List Json}
    (h : ∀ turn ∈ turns, Spoken turn) :
    ∀ turn ∈ Stage.linked ids turns, Spoken turn ∧ CallsIdentified turn := by
  intro turn ht
  have hs : Linking.Sound { ids } := ⟨CallRegistry.sound_initial, hids⟩
  obtain ⟨before, hb, hl⟩ := exists_of_mem_right (linkTurns_linked hs turns) ht
  exact ⟨hl.spoken (h before hb), callsIdentified_linked hids turns turn ht⟩

theorem gathered_repairResponse {part : Json} (h : Part.isResponse part = true) :
    Part.Gathered (repairResponse part) := by
  refine ⟨isResponse_repairResponse h, ?_⟩
  rw [repairResponse]
  split
  · next hn =>
    rw [Part.isResponse_eq, hn] at h
    simp at h
  · next fields hf =>
    split
    · next hn => exact ⟨fields, hf, fun result hr => by rw [hn] at hr; cases hr⟩
    · next hr => exact ⟨fields, hf, fun result hr' => by rw [hr] at hr'; cases hr'; rfl⟩
    · next result _ _ _ =>
      refine ⟨_, rfl, fun result hr => ?_⟩
      cases hr
      rfl
  · refine ⟨_, rfl, fun result hr => ?_⟩
    cases hr
    rfl

theorem leftover?_eq_some {turn rest : Json} (h : leftover? turn = some rest) :
    rest.isObject = true ∧ turn.isObject = true ∧ Turn.role rest = Turn.role turn ∧
      ∀ part ∈ Turn.parts rest, part ∈ Turn.parts turn := by
  rw [leftover?] at h
  split at h
  · cases h
  · next ho =>
    have ho' : turn.isObject = true := by simpa using ho
    split at h
    · cases h
      exact ⟨ho', ho', rfl, fun _ hp => hp⟩
    · split at h
      · cases h
      · cases h
        refine ⟨?_, ho', Turn.role_withParts .., fun part hp => ?_⟩
        · rw [Turn.isObject_withParts, ho']
        · rw [Turn.parts_withParts ho'] at hp
          exact (List.mem_filter.1 hp).1

theorem mem_groupTurns {turns : List Json} {turn : Json} (h : turn ∈ groupTurns turns) :
    Turn.IsGathering turn ∨ ∃ before ∈ turns, leftover? before = some turn := by
  obtain ⟨left, shares, hb, -, -⟩ := (Balanced.initial.pushAll turns).flush
  rw [List.nil_append] at hb
  have ho : turn ∈ (Grouper.pushAll {} turns).flush.output := h
  cases hg : isGroup turn with
  | false =>
    have hk : turn ∈ (Grouper.pushAll {} turns).flush.output.filter (!isGroup ·) :=
      List.mem_filter.2 ⟨ho, by rw [hg]; rfl⟩
    rw [hb.kept] at hk
    obtain ⟨before, hm, hl⟩ := List.mem_filterMap.1 hk
    exact .inr ⟨before, hm, hl⟩
  | true =>
    have hs := List.mem_filter.2 ⟨ho, hg⟩
    rw [hb.groups] at hs
    obtain ⟨share, hm, rfl⟩ := List.mem_map.1 hs
    refine .inl ⟨share.taken.map repairResponse, fun hn => ?_, fun part hp => ?_, rfl⟩
    · rw [Share.turn, hn] at hg
      cases hg
    · obtain ⟨response, hr, rfl⟩ := List.mem_map.1 hp
      apply gathered_repairResponse
      apply hb.responses
      rw [← hb.arrivals]
      exact List.mem_append_left _ (List.mem_flatMap.2 ⟨share, hm, hr⟩)

theorem sendable_grouped (target : Target) {family : ModelFamily} {turns : List Json}
    (h : ∀ turn ∈ turns, Spoken turn ∧ PartsSendable family turn) :
    ∀ turn ∈ grouped target turns, Turn.Sendable target family turn := by
  intro turn ht
  cases target with
  | gemini => exact ⟨(h turn ht).1, (h turn ht).2⟩
  | antigravity =>
    rcases mem_groupTurns ht with hg | ⟨before, hb, hl⟩
    · obtain ⟨responses, hne, hall, rfl⟩ := hg
      exact ⟨⟨rfl, .inl ⟨responses, hne, hall, rfl⟩⟩, nofun⟩
    · obtain ⟨ho, hob, hr, hp⟩ := leftover?_eq_some hl
      obtain ⟨hs, hps⟩ := h before hb
      have hplain := Turn.has_eq_false_iff.1 (isGroup_leftover hl)
      refine ⟨⟨ho, .inr ⟨?_, hplain⟩⟩, fun hm part hpart => ?_⟩
      · rw [hr]
        exact hs hob
      · exact hps (hr ▸ hm) part (hp part hpart)

theorem sendable_delivered (target : Target) (family : ModelFamily) {ids : IdSource}
    (hids : ids.Nonempty) (turns : List Json) :
    ∀ turn ∈ delivered target family ids turns, Turn.Sendable target family turn := by
  apply sendable_grouped
  apply sendable_signed
  apply sendable_linked hids
  apply spoken_closed
  exact spoken_fillRoles

end Conversation

end Dialogue
