import Dialogue.Proofs.Conversation.Twins
import Dialogue.Proofs.Grouping.Balance

namespace Dialogue.Conversation

variable {R : String → String → Prop} {s t : Json}

theorem isEmpty_of_forall₂ {α β : Type} {S : α → β → Prop} {xs : List α} {ys : List β}
    (h : List.Forall₂ S xs ys) : xs.isEmpty = ys.isEmpty := by
  cases h <;> rfl

theorem twin_isGroup (h : Turn.Twin R s t) : isGroup s = isGroup t := by
  rw [isGroup, isGroup, Bool.eq_iff_iff, Turn.has_eq_true_iff, Turn.has_eq_true_iff, h.count]

theorem twin_responses (h : Turn.Twin R s t) :
    List.Forall₂ (Part.Twin R) (responses s) (responses t) :=
  h.filter fun kind => kind = .functionResponse

theorem twin_others (h : Turn.Twin R s t) :
    List.Forall₂ (Part.Twin R) (others s) (others t) :=
  h.filter fun kind => !decide (kind = .functionResponse)

theorem twin_leftover? (h : Turn.Twin R s t) :
    Option.Rel (Turn.Twin R) (leftover? s) (leftover? t) := by
  have hothers := twin_others h
  rw [leftover?, leftover?, ← h.isObject, ← twin_isGroup h, ← isEmpty_of_forall₂ hothers]
  split
  · exact .none
  · next ho =>
    split
    · exact .some h
    · split
      · exact .none
      · exact .some (h.withParts hothers (by simpa using ho))

theorem twin_groupTurn {ps qs : List Json} (h : List.Forall₂ (Part.Twin R) ps qs) :
    Turn.Twin R (groupTurn (ps.map repairResponse)) (groupTurn (qs.map repairResponse)) := by
  have hrepaired : List.Forall₂ (Part.Twin R) (ps.map repairResponse) (qs.map repairResponse) := by
    rw [List.forall₂_map_left_iff, List.forall₂_map_right_iff]
    exact h.imp fun _ _ hp => twin_repairResponse hp
  have ho : (groupTurn []).isObject = true := rfl
  exact .parts ho hrepaired

structure Grouper.Twin (R : String → String → Prop) (g other : Grouper) : Prop where
  output : List.Forall₂ (Turn.Twin R) g.output other.output
  pending : g.pending = other.pending
  waiting : List.Forall₂ (Part.Twin R) g.waiting other.waiting

namespace Grouper.Twin

variable {g other : Grouper}

theorem emit (h : Twin R g other) (needed : Nat) : Twin R (g.emit needed) (other.emit needed) := by
  have htaken := List.forall₂_take needed h.waiting
  rw [Grouper.emit, Grouper.emit]
  dsimp only
  rw [isEmpty_of_forall₂ htaken]
  split
  · exact ⟨h.output, h.pending, List.forall₂_drop needed h.waiting⟩
  · exact ⟨List.rel_append h.output (.cons (twin_groupTurn htaken) .nil), h.pending,
      List.forall₂_drop needed h.waiting⟩

theorem settle (h : Twin R g other) (needed : Nat) :
    Twin R (g.settle needed) (other.settle needed) := by
  rw [Grouper.settle, Grouper.settle, h.waiting.length_eq]
  split
  · exact h.emit needed
  · exact h

theorem settleNewest (h : Twin R g other) : Twin R g.settleNewest other.settleNewest := by
  rw [Grouper.settleNewest, Grouper.settleNewest, h.waiting.length_eq, h.pending]
  split
  · next needed others _ =>
    have hopened : Twin R { g with pending := others } { other with pending := others } :=
      ⟨h.output, rfl, h.waiting⟩
    exact hopened.emit needed
  · exact h

theorem receive (h : Twin R g other) (ht : Turn.Twin R s t) :
    Twin R (g.receive s) (other.receive t) := by
  rw [Grouper.receive, Grouper.receive, twin_isGroup ht]
  split
  · exact settleNewest ⟨h.output, h.pending, List.rel_append h.waiting (twin_responses ht)⟩
  · exact h

theorem pushPlain (h : Twin R g other) (ht : Turn.Twin R s t) :
    Twin R (g.pushPlain s) (other.pushPlain t) := by
  refine ⟨List.rel_append h.output (.cons ht .nil), ?_, h.waiting⟩
  rw [Grouper.pushPlain, Grouper.pushPlain, ht.openedCalls, h.pending]

theorem push (h : Twin R g other) (ht : Turn.Twin R s t) : Twin R (g.push s) (other.push t) := by
  cases ho : t.isObject with
  | false =>
    rw [push_of_not_isObject g (ht.isObject.trans ho), push_of_not_isObject other ho]
    exact ⟨h.output, h.pending, h.waiting⟩
  | true =>
    rw [push_of_isObject g (ht.isObject.trans ho), push_of_isObject other ho]
    have hreceived := h.receive ht
    have hleft := twin_leftover? ht
    generalize leftover? s = left at hleft ⊢
    generalize leftover? t = left' at hleft ⊢
    cases hleft with
    | none => exact hreceived
    | some hkept => exact hreceived.pushPlain hkept

theorem pushAll (h : Twin R g other) {turns sent : List Json}
    (ht : List.Forall₂ (Turn.Twin R) turns sent) :
    Twin R (g.pushAll turns) (other.pushAll sent) :=
  List.rel_foldl (fun _ _ h _ _ ht => h.push ht) h ht

theorem flush (h : Twin R g other) : Twin R g.flush other.flush := by
  have hclosed : Twin R { g with pending := [] } { other with pending := [] } :=
    ⟨h.output, rfl, h.waiting⟩
  rw [Grouper.flush, Grouper.flush, h.pending]
  have hcounts : List.Forall₂ Eq other.pending other.pending := List.forall₂_refl _
  refine List.rel_foldl (fun _ _ h needed _ he => ?_) hclosed hcounts
  rw [← he]
  exact h.settle needed

end Grouper.Twin

theorem twin_groupTurns {turns sent : List Json} (h : List.Forall₂ (Turn.Twin R) turns sent) :
    List.Forall₂ (Turn.Twin R) (groupTurns turns) (groupTurns sent) :=
  (Grouper.Twin.pushAll ⟨.nil, rfl, .nil⟩ h).flush.output

theorem twin_delivered (target : Target) (family : ModelFamily) {ids other : IdSource}
    {turns : List Json} (ha : IdSource.Agree R (anonymousCalls (adapted family turns)) ids other) :
    List.Forall₂ (Turn.Twin R) (delivered target family ids turns)
      (delivered target family other turns) := by
  have hregistry : CallRegistry.Twin R {} {} := fun _ => ⟨rfl, .nil⟩
  have hlinked : List.Forall₂ (Turn.Twin R) (Stage.linked ids (adapted family turns))
      (Stage.linked other (adapted family turns)) := by
    rw [Stage.linked, Stage.linked]
    exact twin_linkTurns hregistry ha
  have hsigned : List.Forall₂ (Turn.Twin R)
      (signed family (Stage.linked ids (adapted family turns)))
      (signed family (Stage.linked other (adapted family turns))) := by
    rw [signed, signed, List.forall₂_map_left_iff, List.forall₂_map_right_iff]
    exact hlinked.imp fun _ _ ht => twin_signedTurn ht family
  rw [delivered, delivered, grouped, grouped]
  split
  · exact twin_groupTurns hsigned
  · exact hsigned

end Dialogue.Conversation
