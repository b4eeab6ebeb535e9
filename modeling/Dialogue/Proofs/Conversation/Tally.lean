import Dialogue.Proofs.Conversation.Draws
import Dialogue.Proofs.Conversation.Handles

namespace Dialogue.Conversation

def unnamedIn (role : Role) (parts : List Json) : Nat :=
  if role = .user then parts.countP (Part.isAnonymous "functionResponse") else 0

def unnamedResponses (turns : List Json) : Nat :=
  (turns.map fun turn => unnamedIn (Turn.role turn) (Turn.parts turn)).sum

structure Linking.Ready (state : Linking) : Prop extends state.Sound where
  usable : state.registry.Usable

theorem Linking.ready_initial {ids : IdSource} (h : ids.Nonempty) : Linking.Ready { ids } :=
  ⟨⟨CallRegistry.sound_initial, h⟩, nofun⟩

structure Tallied (state next : Linking) (before after : Nat) : Prop where
  ready : next.Ready
  drawn : next.generated + state.ids.drawn = state.generated + next.ids.drawn
  answered : next.linked + next.unmatched = state.linked + state.unmatched + before
  unmatched : next.unmatched = state.unmatched + after

namespace Tallied

variable {state next last : Linking} {before after before' after' : Nat}

theorem refl (h : state.Ready) : Tallied state state 0 0 := ⟨h, rfl, rfl, rfl⟩

theorem trans (h : Tallied state next before after) (h' : Tallied next last before' after') :
    Tallied state last (before + before') (after + after') where
  ready := h'.ready
  drawn := by
    have hd := h.drawn
    have hd' := h'.drawn
    omega
  answered := by rw [h'.answered, h.answered, Nat.add_assoc]
  unmatched := by rw [h'.unmatched, h.unmatched, Nat.add_assoc]

end Tallied

theorem unnamedIn_cons (role : Role) (part : Json) (rest : List Json) :
    unnamedIn role (part :: rest) = unnamedIn role [part] + unnamedIn role rest := by
  rw [unnamedIn, unnamedIn, unnamedIn]
  split
  · rw [← List.singleton_append, List.countP_append]
  · rfl

theorem unnamedResponses_cons (turn : Json) (rest : List Json) :
    unnamedResponses (turn :: rest) =
      unnamedIn (Turn.role turn) (Turn.parts turn) + unnamedResponses rest := by
  rw [unnamedResponses, List.map_cons, List.sum_cons, unnamedResponses]

variable {state : Linking} {part turn : Json} {turns : List Json}

theorem CallRegistry.Usable.record {registry : CallRegistry} (hr : registry.Sound)
    (hu : registry.Usable) {id : Json} (hid : Part.IsUsable id) (name : String) :
    (registry.record name id).Usable := by
  intro other id' hm
  rw [unanswered_record hr] at hm
  rcases List.mem_append.1 hm with hm | hm
  · exact hu other id' hm
  · split at hm
    · cases List.mem_singleton.1 hm
      exact hid
    · cases hm

theorem tallied_linkCall (h : state.Ready) (fields : Members) :
    Tallied state (linkCall state fields).1 0 0 := by
  rw [linkCall]
  split
  · next id hid =>
    have hid' : Part.IsUsable id := (Part.usableId?_eq_some.1 hid).2
    exact ⟨⟨⟨h.registry.record _ _, h.ids⟩, .record h.registry h.usable hid' _⟩, rfl, rfl, rfl⟩
  · have hid : Part.IsUsable (.string state.ids.next) := Part.isUsable_string (h.ids _)
    refine ⟨⟨⟨h.registry.record _ _, h.ids⟩, .record h.registry h.usable hid _⟩, ?_, rfl, rfl⟩
    dsimp only
    rw [IdSource.drawn_advance]
    omega

theorem tallied_linkModelPart (h : state.Ready) (part : Json) :
    Tallied state (linkModelPart state part).1 0 0 := by
  rw [linkModelPart]
  split
  · exact .refl h
  · exact tallied_linkCall h _
  · exact ⟨⟨⟨h.registry, h.ids⟩, h.usable⟩, rfl, rfl, rfl⟩

theorem tallied_linkResponse (h : state.Ready) (fields : Members) :
    Tallied state (linkResponse state fields).1 (if (Part.usableId? fields).isNone then 1 else 0)
      (if (Part.usableId? (linkResponse state fields).2).isNone then 1 else 0) := by
  have hreplied := linkResponse_replied h.registry h.usable fields
  have hsound := hreplied.sound
  have husable := hreplied.usable h.usable
  rw [linkResponse] at hsound husable ⊢
  cases hn : Part.usableId? fields with
  | some id =>
    rw [hn]
    exact .refl h
  | none =>
    rw [hn] at hsound husable
    cases hq : state.registry.unanswered (functionName fields) with
    | nil =>
      rw [CallRegistry.claim_of_unanswered_nil hq] at hsound husable ⊢
      dsimp only
      rw [hn]
      exact ⟨⟨⟨h.registry, h.ids⟩, h.usable⟩, rfl, rfl, rfl⟩
    | cons id rest =>
      have hid : Part.IsUsable id := h.usable _ id (by rw [hq]; exact .head _)
      obtain ⟨hgiven, -⟩ := CallRegistry.claim_of_unanswered hq
      generalize state.registry.claim (functionName fields) = claimed at hgiven hsound husable ⊢
      obtain ⟨_, registry⟩ := claimed
      cases hgiven
      dsimp only at hsound husable ⊢
      rw [Part.usableId?_put hid]
      exact ⟨⟨⟨hsound, h.ids⟩, husable⟩, rfl, Nat.add_right_comm .., rfl⟩

theorem unnamedIn_singleton {fields : Members}
    (hf : part.field? "functionResponse" = some (.object fields)) :
    unnamedIn .user [part] = if (Part.usableId? fields).isNone then 1 else 0 := by
  rw [unnamedIn, if_pos rfl, List.countP_singleton, Part.isAnonymous, hf]

theorem tallied_linkReplyPart (h : state.Ready) (part : Json) :
    Tallied state (linkReplyPart state part).1 (unnamedIn .user [part])
      (unnamedIn .user [(linkReplyPart state part).2]) := by
  rw [linkReplyPart]
  split
  · next fields hf =>
    rw [unnamedIn_singleton hf,
      unnamedIn_singleton (Json.field?_putField_self (Json.isObject_of_field? hf) ..)]
    exact tallied_linkResponse h fields
  · next hf =>
    have hnone : unnamedIn .user [part] = 0 := by
      rw [unnamedIn, if_pos rfl, List.countP_singleton, Part.isAnonymous]
      split
      · next fields hf' => exact absurd hf' (hf fields)
      · rfl
    rw [hnone]
    exact .refl h

theorem tallied_linkPart {role : Role} (hrole : role ≠ .function) (h : state.Ready) (part : Json) :
    Tallied state (linkPart role state part).1 (unnamedIn role [part])
      (unnamedIn role [(linkPart role state part).2]) := by
  cases role with
  | model => exact tallied_linkModelPart h part
  | user => exact tallied_linkReplyPart h part
  | function => exact absurd rfl hrole
  | unset => exact .refl h
  | invalid => exact .refl h

theorem tallied_linkParts {role : Role} (hrole : role ≠ .function) (h : state.Ready)
    (parts : List Json) :
    Tallied state (linkParts role state parts).1 (unnamedIn role parts)
      (unnamedIn role (linkParts role state parts).2) := by
  induction parts generalizing state with
  | nil =>
    have hnone : unnamedIn role [] = 0 := ite_self 0
    rw [linkParts, hnone]
    exact .refl h
  | cons part rest ih =>
    have hpart := tallied_linkPart hrole h part
    rw [linkParts, unnamedIn_cons role part rest, unnamedIn_cons role (linkPart role state part).2]
    exact hpart.trans (ih hpart.ready)

theorem tallied_linkTurn (hrole : Turn.role turn ≠ .function) (h : state.Ready) :
    Tallied state (linkTurn state turn).1 (unnamedIn (Turn.role turn) (Turn.parts turn))
      (unnamedIn (Turn.role (linkTurn state turn).2) (Turn.parts (linkTurn state turn).2)) := by
  obtain ⟨hstate, hparts⟩ := linkTurn_parts state turn
  rw [hstate, hparts, role_linkTurn]
  exact tallied_linkParts hrole h _

theorem tallied_linkTurns (hrole : ∀ turn ∈ turns, Turn.role turn ≠ .function) (h : state.Ready) :
    Tallied state (linkTurns state turns).1 (unnamedResponses turns)
      (unnamedResponses (linkTurns state turns).2) := by
  induction turns generalizing state with
  | nil => exact .refl h
  | cons turn rest ih =>
    have hturn := tallied_linkTurn (hrole turn (.head _)) h
    rw [unnamedResponses_cons, linkTurns, unnamedResponses_cons]
    exact hturn.trans (ih (fun t ht => hrole t (.tail _ ht)) hturn.ready)

structure LinkingTally (turns linked : List Json) (ids left : IdSource)
    (generated found unmatched : Nat) : Prop where
  drawn : left = ids.after generated
  answered : found + unmatched = unnamedResponses turns
  unmatched : unmatched = unnamedResponses linked

theorem linkingTally {ids : IdSource} (hids : ids.Nonempty)
    (hrole : ∀ turn ∈ turns, Turn.role turn ≠ .function) :
    LinkingTally turns (Stage.linked ids turns) ids (linkTurns { ids } turns).1.ids
      (linkTurns { ids } turns).1.generated (linkTurns { ids } turns).1.linked
      (linkTurns { ids } turns).1.unmatched := by
  have h := tallied_linkTurns hrole (Linking.ready_initial hids)
  have hgenerated : (linkTurns { ids } turns).1.generated = anonymousCalls turns := by
    have hdrawn := h.drawn
    rw [ids_linkTurns, IdSource.after] at hdrawn
    dsimp only at hdrawn
    omega
  refine ⟨?_, h.answered.trans (Nat.zero_add _), h.unmatched.trans (Nat.zero_add _)⟩
  rw [ids_linkTurns, hgenerated]

end Dialogue.Conversation
