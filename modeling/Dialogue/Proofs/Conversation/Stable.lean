import Dialogue.Proofs.Conversation.Draws
import Dialogue.Proofs.Conversation.Sendable

namespace Dialogue.Conversation

variable {family : ModelFamily} {part turn : Json} {turns : List Json}

def ResponsesIdentified (turns : List Json) : Prop :=
  ∀ turn ∈ turns, Turn.role turn = .user → ∀ part ∈ Turn.parts turn,
    Part.isAnonymous "functionResponse" part = false

instance (turns : List Json) : Decidable (ResponsesIdentified turns) :=
  inferInstanceAs (Decidable (∀ turn ∈ turns, _))

theorem fillRoles_of_spoken {previous : Option Role} (h : ∀ turn ∈ turns, Spoken turn) :
    fillRoles previous turns = turns := by
  induction turns generalizing previous with
  | nil => rfl
  | cons turn rest ih =>
    have hrest := fun t ht => h t (List.mem_cons_of_mem _ ht)
    rw [fillRoles]
    split
    · rw [ih hrest]
    · next hl =>
      split
      · next ho => exact absurd (isLegal_iff.2 (h turn (.head _) ho)) hl
      · rw [ih hrest]

def TurnIdentified (turn : Json) : Prop :=
  ∀ part ∈ Turn.parts turn, Part.isAnonymous (Part.identifiedKey (Turn.role turn)) part = false

theorem linkPart_of_identified {role : Role}
    (h : Part.isAnonymous (Part.identifiedKey role) part = false) (state : Linking) :
    (linkPart role state part).2 = part := by
  rcases linkPart_eq_or_given role state part with hkept | ⟨fields, id, hf, hn, -⟩
  · exact hkept
  · rw [Part.isAnonymous_of_field? hf hn] at h
    cases h

theorem linkParts_of_identified {role : Role} {parts : List Json}
    (h : ∀ part ∈ parts, Part.isAnonymous (Part.identifiedKey role) part = false)
    (state : Linking) : (linkParts role state parts).2 = parts := by
  induction parts generalizing state with
  | nil => rfl
  | cons part rest ih =>
    rw [linkParts, linkPart_of_identified (h part (.head _)), ih fun p hp => h p (.tail _ hp)]

theorem linkTurn_of_identified (h : TurnIdentified turn) (state : Linking) :
    (linkTurn state turn).2 = turn := by
  rw [linkTurn]
  split
  · rfl
  · next parts hp =>
    rw [TurnIdentified, Turn.parts_of_parts? hp] at h
    dsimp only
    rw [linkParts_of_identified h]
    exact Json.putField_of_field? (Turn.field?_of_parts? hp)

theorem linkTurns_of_identified (h : ∀ turn ∈ turns, TurnIdentified turn) (state : Linking) :
    (linkTurns state turns).2 = turns := by
  induction turns generalizing state with
  | nil => rfl
  | cons turn rest ih =>
    rw [linkTurns, linkTurn_of_identified (h turn (.head _)), ih fun t ht => h t (.tail _ ht)]

theorem anonymousCalls_of_identified (h : ∀ turn ∈ turns, TurnIdentified turn) :
    anonymousCalls turns = 0 := by
  rw [anonymousCalls, List.sum_eq_zero_iff]
  intro n hn
  obtain ⟨turn, ht, rfl⟩ := List.mem_map.1 hn
  rw [anonymousIn]
  split
  · next hr =>
    rw [List.countP_eq_zero]
    intro part hp
    have hpart := h turn ht part hp
    rw [hr, Part.identifiedKey] at hpart
    rw [hpart]
    exact Bool.false_ne_true
  · rfl

theorem markPart_of_sendable (hf : family ≠ .claude) (h : Part.Sendable family part) :
    markPart part = part := by
  rw [markPart]
  split
  · next hn =>
    apply Json.putField_of_field?
    by_cases ht : Part.isThought part = true
    · exact h.reasoning hf ht
    · rw [needsMark, Bool.eq_false_iff.2 ht, Bool.false_or, Bool.and_eq_true] at hn
      obtain ⟨signature, hs, rfl | hl⟩ := h.calling hf hn.1
      · exact hs
      · have hu : hasUsableSignature part = true := by
          rw [hasUsableSignature, hs]
          exact decide_eq_true hl
        rw [hu] at hn
        cases hn.2
  · rfl

theorem signedTurn_of_sendable (h : Turn.role turn = .model →
    ∀ part ∈ Turn.parts turn, Part.Sendable family part) : signedTurn family turn = turn := by
  rw [signedTurn]
  split
  · rfl
  · next hf =>
    rw [markTurn]
    split
    · next parts hr hp =>
      rw [Turn.parts_of_parts? hp] at h
      have hid : parts.map markPart = parts :=
        (List.map_congr_left fun part hm => markPart_of_sendable hf (h hr part hm)).trans
          (List.map_id parts)
      rw [hid]
      exact Json.putField_of_field? (Turn.field?_of_parts? hp)
    · rfl

variable (hs : ∀ turn ∈ turns, Turn.Sendable .gemini family turn)

include hs

theorem adapted_of_sendable (hf : family ≠ .claude) : adapted family turns = turns := by
  rw [adapted, closed, if_neg hf]
  exact fillRoles_of_spoken fun turn ht => (hs turn ht).permitted

variable (hr : ResponsesIdentified turns)

include hr

theorem turnIdentified_of_sendable : ∀ turn ∈ turns, TurnIdentified turn := by
  intro turn ht part hp
  obtain ⟨hpermitted, hparts⟩ := hs turn ht
  have ho := Turn.isObject_of_parts_ne_nil (List.ne_nil_of_mem hp)
  rcases hpermitted ho with hrole | hrole
  · rw [hrole]
    exact hr turn ht hrole part hp
  · rw [hrole, Part.identifiedKey, Part.isAnonymous]
    split
    · next fields hf =>
      obtain ⟨id, hid, hu⟩ := (hparts hrole part hp).identified fields hf
      rw [Part.usableId?_eq_some.2 ⟨hid, hu⟩]
      rfl
    · rfl

theorem delivered_of_sendable (hf : family ≠ .claude) (ids : IdSource) :
    delivered .gemini family ids turns = turns := by
  rw [delivered, grouped, if_neg (by decide), adapted_of_sendable hs hf, Stage.linked,
    linkTurns_of_identified (turnIdentified_of_sendable hs hr), signed]
  exact (List.map_congr_left fun turn ht => signedTurn_of_sendable (hs turn ht).parts).trans
    (List.map_id turns)

end Dialogue.Conversation
