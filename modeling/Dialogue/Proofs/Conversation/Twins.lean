import Dialogue.Proofs.Conversation.Draws
import Dialogue.Proofs.Conversation.Kept
import Dialogue.Proofs.Json.Renamed
import Dialogue.Proofs.Json.Without

/-!
One conversation, linked under two sources of identifiers.  The two results go hand in hand: what
the program looks at is the same in both, and only an identifier that one source gave stands where
the other has its own.
-/

namespace Dialogue

open Conversation (signatureKey skipMark Linking CallRegistry)

variable {R : String → String → Prop}

structure IdSource.Agree (R : String → String → Prop) (n : Nat) (ids other : IdSource) : Prop where
  nonempty : ids.Nonempty
  otherNonempty : other.Nonempty
  related : ∀ k < n, R (ids.text (ids.drawn + k)) (other.text (other.drawn + k))

theorem IdSource.Agree.split {m n : Nat} {ids other : IdSource} (h : Agree R (m + n) ids other) :
    Agree R m ids other ∧ Agree R n (ids.after m) (other.after m) := by
  refine ⟨⟨h.nonempty, h.otherNonempty, fun k hk => h.related k (by omega)⟩,
    ⟨h.nonempty, h.otherNonempty, fun k hk => ?_⟩⟩
  have hr := h.related (m + k) (by omega)
  rwa [← Nat.add_assoc, ← Nat.add_assoc] at hr

namespace Part

/-- Identifiers that stand in the same place: the client's own, or one of each source. -/
inductive SameId (R : String → String → Prop) : Json → Json → Prop where
  | own {id : Json} (h : IsUsable id) : SameId R id id
  | drawn {old new : String} (h : R old new) (ho : old ≠ "") (hn : new ≠ "") :
      SameId R (.string old) (.string new)

inductive Twin (R : String → String → Prop) : Json → Json → Prop where
  | same {part : Json} : Twin R part part
  | given {part : Json} {key : String} {fields : Members} {id other : Json}
      (hk : key = "functionCall" ∨ key = "functionResponse")
      (hf : part.field? key = some (.object fields)) (hn : usableId? fields = none)
      (h : SameId R id other) :
      Twin R (part.putField key (.object (Members.put "id" id fields)))
        (part.putField key (.object (Members.put "id" other fields)))

theorem SameId.usable {id other : Json} (h : SameId R id other) : IsUsable id ∧ IsUsable other := by
  cases h with
  | own h => exact ⟨h, h⟩
  | drawn _ ho hn => exact ⟨isUsable_string ho, isUsable_string hn⟩

theorem SameId.renamed {id other : Json} (h : SameId R id other) : Json.Renamed R id other := by
  cases h with
  | own => exact .same
  | drawn h => exact .string h

namespace Twin

variable {p q : Json}

theorem renamed (h : Twin R p q) : Json.Renamed R p q := by
  cases h with
  | same => exact .same
  | given _ _ _ h => exact Json.Renamed.putField (.object (.put h.renamed ..)) ..

theorem kind (h : Twin R p q) : Part.kind p = Part.kind q := by
  cases h with
  | same => rfl
  | given hk hf hn =>
    exact (SameButId.given hk hf hn).kind.trans (SameButId.given hk hf hn).kind.symm

theorem field?_of_ne {key : String} (hc : key ≠ "functionCall") (hr : key ≠ "functionResponse")
    (h : Twin R p q) : p.field? key = q.field? key := by
  cases h with
  | same => rfl
  | given hk =>
    rcases hk with rfl | rfl
    · rw [Json.field?_putField_of_ne hc, Json.field?_putField_of_ne hc]
    · rw [Json.field?_putField_of_ne hr, Json.field?_putField_of_ne hr]

end Twin

end Part

namespace Turn

inductive Twin (R : String → String → Prop) : Json → Json → Prop where
  | same {turn : Json} : Twin R turn turn
  | parts {turn : Json} {ps qs : List Json} (ho : turn.isObject = true)
      (h : List.Forall₂ (Part.Twin R) ps qs) : Twin R (withParts turn ps) (withParts turn qs)

namespace Twin

variable {s t : Json}

theorem renamed (h : Twin R s t) : Json.Renamed R s t := by
  cases h with
  | same => exact .same
  | parts _ h =>
    exact Json.Renamed.putField (.array (.of_forall₂ (h.imp fun _ _ hp => hp.renamed))) ..

theorem isObject (h : Twin R s t) : s.isObject = t.isObject := by
  cases h with
  | same => rfl
  | parts => rw [isObject_withParts, isObject_withParts]

theorem role (h : Twin R s t) : Turn.role s = Turn.role t := by
  cases h with
  | same => rfl
  | parts => rw [role_withParts, role_withParts]

theorem forall₂_parts (h : Twin R s t) :
    List.Forall₂ (Part.Twin R) (Turn.parts s) (Turn.parts t) := by
  cases h with
  | same => exact List.forall₂_same.2 fun _ _ => .same
  | parts ho h => rwa [parts_withParts ho, parts_withParts ho]

theorem filter (h : Twin R s t) (f : PartKind → Bool) :
    List.Forall₂ (Part.Twin R) ((Turn.parts s).filter (f <| Part.kind ·))
      ((Turn.parts t).filter (f <| Part.kind ·)) :=
  List.rel_filter (fun _ _ hp => iff_of_eq (congrArg (f · = true) hp.kind)) h.forall₂_parts

theorem count (h : Twin R s t) (kind : PartKind) : Turn.count kind s = Turn.count kind t :=
  (h.filter (decide <| · = kind)).length_eq

theorem openedCalls (h : Twin R s t) : Turn.openedCalls s = Turn.openedCalls t := by
  rw [Turn.openedCalls, Turn.openedCalls, h.role, h.count]

theorem withParts (h : Twin R s t) {ps qs : List Json} (hps : List.Forall₂ (Part.Twin R) ps qs)
    (ho : s.isObject = true) : Twin R (Turn.withParts s ps) (Turn.withParts t qs) := by
  cases h with
  | same => exact .parts ho hps
  | parts ho' =>
    rw [Turn.withParts, Turn.withParts, Json.putField_putField, Turn.withParts, Turn.withParts,
      Json.putField_putField]
    exact .parts ho' hps

end Twin

end Turn

namespace Conversation

def CallRegistry.Twin (R : String → String → Prop) (registry other : CallRegistry) : Prop :=
  ∀ name, (registry.queue name).answered = (other.queue name).answered ∧
    List.Forall₂ (Part.SameId R) (registry.queue name).ids (other.queue name).ids

theorem rel_getElem? {α β : Type} {S : α → β → Prop} {xs : List α} {ys : List β}
    (h : List.Forall₂ S xs ys) (i : Nat) : Option.Rel S xs[i]? ys[i]? := by
  induction h generalizing i with
  | nil => exact .none
  | cons h _ ih =>
    cases i with
    | zero => exact .some h
    | succ i => exact ih i

theorem isSome_of_rel {α β : Type} {S : α → β → Prop} {x? : Option α} {y? : Option β}
    (h : Option.Rel S x? y?) : x?.isSome = y?.isSome := by
  cases h <;> rfl

namespace CallRegistry.Twin

variable {registry other : CallRegistry}

theorem record (h : Twin R registry other) {id new : Json} (hid : Part.SameId R id new)
    (name : String) : Twin R (registry.record name id) (other.record name new) := by
  intro called
  rw [queue_record, queue_record]
  split
  · exact ⟨(h name).1, List.rel_append (h name).2 (.cons hid .nil)⟩
  · exact h called

theorem claim (h : Twin R registry other) (name : String) :
    Option.Rel (Part.SameId R) (registry.claim name).1 (other.claim name).1 ∧
      Twin R (registry.claim name).2 (other.claim name).2 := by
  have hfront := rel_getElem? (h name).2 (registry.queue name).answered
  rw [← CallQueue.front?, (h name).1, ← CallQueue.front?] at hfront
  refine ⟨?_, fun called => ?_⟩
  · rw [CallRegistry.claim, CallRegistry.claim]
    generalize (registry.queue name).front? = front at hfront ⊢
    generalize (other.queue name).front? = front' at hfront ⊢
    cases hfront with
    | none => exact .none
    | some hid => exact .some hid
  · rw [queue_claim, queue_claim, isSome_of_rel hfront]
    split
    · exact ⟨congrArg (· + 1) (h name).1, (h name).2⟩
    · exact h called

end CallRegistry.Twin

variable {state other : Linking}

theorem twin_linkModelPart (h : state.registry.Twin R other.registry) {part : Json}
    (ha : IdSource.Agree R (anonymousIn .model [part]) state.ids other.ids) :
    Part.Twin R (linkModelPart state part).2 (linkModelPart other part).2 ∧
      (linkModelPart state part).1.registry.Twin R (linkModelPart other part).1.registry := by
  rw [linkModelPart, linkModelPart]
  split
  · exact ⟨.same, h⟩
  · next fields hf =>
    dsimp only
    rw [linkCall, linkCall]
    split
    · next id hid =>
      exact ⟨.same, h.record (.own (Part.usableId?_eq_some.1 hid).2) _⟩
    · next hn =>
      have hone : 0 < anonymousIn .model [part] := by
        rw [anonymousIn, if_pos rfl, List.countP_singleton, Part.isAnonymous_of_field? hf hn]
        decide
      have hid : Part.SameId R (.string state.ids.next) (.string other.ids.next) :=
        .drawn (ha.related 0 hone) (ha.nonempty _) (ha.otherNonempty _)
      exact ⟨.given (.inl rfl) hf hn hid, h.record hid _⟩
  · exact ⟨.same, h⟩

theorem twin_linkReplyPart (h : state.registry.Twin R other.registry) (part : Json) :
    Part.Twin R (linkReplyPart state part).2 (linkReplyPart other part).2 ∧
      (linkReplyPart state part).1.registry.Twin R (linkReplyPart other part).1.registry := by
  rw [linkReplyPart, linkReplyPart]
  split
  · next fields hf =>
    dsimp only
    rw [linkResponse, linkResponse]
    split
    · exact ⟨.same, h⟩
    · next hn =>
      obtain ⟨hclaim, hrest⟩ := h.claim (functionName fields)
      generalize state.registry.claim (functionName fields) = claimed at hclaim hrest ⊢
      generalize other.registry.claim (functionName fields) = claimed' at hclaim hrest ⊢
      obtain ⟨id?, registry⟩ := claimed
      obtain ⟨new?, registry'⟩ := claimed'
      cases hclaim with
      | none => exact ⟨.same, h⟩
      | some hid => exact ⟨.given (.inr rfl) hf hn hid, hrest⟩
  · exact ⟨.same, h⟩

theorem twin_linkPart (role : Role) (h : state.registry.Twin R other.registry) {part : Json}
    (ha : IdSource.Agree R (anonymousIn role [part]) state.ids other.ids) :
    Part.Twin R (linkPart role state part).2 (linkPart role other part).2 ∧
      (linkPart role state part).1.registry.Twin R (linkPart role other part).1.registry := by
  cases role with
  | model => exact twin_linkModelPart h ha
  | user => exact twin_linkReplyPart h part
  | function => exact twin_linkReplyPart h part
  | unset => exact ⟨.same, h⟩
  | invalid => exact ⟨.same, h⟩

theorem twin_linkParts (role : Role) (h : state.registry.Twin R other.registry)
    {parts : List Json} (ha : IdSource.Agree R (anonymousIn role parts) state.ids other.ids) :
    List.Forall₂ (Part.Twin R) (linkParts role state parts).2 (linkParts role other parts).2 ∧
      (linkParts role state parts).1.registry.Twin R (linkParts role other parts).1.registry := by
  induction parts generalizing state other with
  | nil => exact ⟨.nil, h⟩
  | cons part rest ih =>
    rw [anonymousIn_cons] at ha
    obtain ⟨hfirst, hrest⟩ := ha.split
    obtain ⟨hp, hregistry⟩ := twin_linkPart role h hfirst
    rw [← ids_linkPart, ← ids_linkPart] at hrest
    obtain ⟨hps, hlast⟩ := ih hregistry hrest
    exact ⟨.cons hp hps, hlast⟩

theorem twin_linkTurn (h : state.registry.Twin R other.registry) {turn : Json}
    (ha : IdSource.Agree R (anonymousIn (Turn.role turn) (Turn.parts turn)) state.ids other.ids) :
    Turn.Twin R (linkTurn state turn).2 (linkTurn other turn).2 ∧
      (linkTurn state turn).1.registry.Twin R (linkTurn other turn).1.registry := by
  rw [linkTurn, linkTurn]
  split
  · exact ⟨.same, h⟩
  · next parts hp =>
    rw [Turn.parts_of_parts? hp] at ha
    obtain ⟨hps, hregistry⟩ := twin_linkParts (Turn.role turn) h ha
    exact ⟨.parts (Turn.isObject_of_parts? hp) hps, hregistry⟩

theorem twin_linkTurns (h : state.registry.Twin R other.registry) {turns : List Json}
    (ha : IdSource.Agree R (anonymousCalls turns) state.ids other.ids) :
    List.Forall₂ (Turn.Twin R) (linkTurns state turns).2 (linkTurns other turns).2 := by
  induction turns generalizing state other with
  | nil => exact .nil
  | cons turn rest ih =>
    rw [anonymousCalls_cons] at ha
    obtain ⟨hfirst, hrest⟩ := ha.split
    obtain ⟨ht, hregistry⟩ := twin_linkTurn h hfirst
    rw [← ids_linkTurn, ← ids_linkTurn] at hrest
    exact .cons ht (ih hregistry hrest)

theorem twin_signedPart {p q : Json} (h : Part.Twin R p q) (family : ModelFamily) (role : Role) :
    Part.Twin R (signedPart family role p) (signedPart family role q) := by
  have hmarked : Marked family role p ↔ Marked family role q :=
    marked_congr h.kind (h.field?_of_ne (by decide) (by decide))
      (h.field?_of_ne (by decide) (by decide))
  rw [signedPart, signedPart]
  by_cases hm : Marked family role p
  · rw [if_pos hm, if_pos (hmarked.1 hm)]
    cases h with
    | same => exact .same
    | @given part key fields id new hk hf hn h =>
      have hne : key ≠ signatureKey := by
        rcases hk with rfl | rfl <;> decide
      rw [Json.putField_comm hne hf, Json.putField_comm hne hf]
      exact .given hk ((Json.field?_putField_of_ne hne ..).trans hf) hn h
  · rwa [if_neg hm, if_neg (hmarked.not.1 hm)]

theorem twin_signedTurn {s t : Json} (h : Turn.Twin R s t) (family : ModelFamily) :
    Turn.Twin R (signedTurn family s) (signedTurn family t) := by
  cases h with
  | same => exact .same
  | parts ho h =>
    rw [signedTurn_of_parts? (Turn.parts?_withParts ho _), Turn.role_withParts,
      signedTurn_of_parts? (Turn.parts?_withParts ho _), Turn.role_withParts]
    refine (Turn.Twin.parts ho h).withParts ?_ ((Turn.isObject_withParts ..).trans ho)
    rw [List.forall₂_map_left_iff, List.forall₂_map_right_iff]
    exact h.imp fun _ _ hp => twin_signedPart hp family _

theorem twin_rebuilt (name : String) (result : Json) {id other : Json}
    (h : Part.SameId R id other) :
    Part.Twin R
      (.object [("functionResponse",
        .object [("name", .string name), ("response", result), ("id", id)])])
      (.object [("functionResponse",
        .object [("name", .string name), ("response", result), ("id", other)])]) := by
  have hf : (Json.object [("functionResponse",
      .object [("name", .string name), ("response", result)])]).field? "functionResponse" =
      some (.object [("name", .string name), ("response", result)]) := rfl
  exact .given (.inr rfl) hf rfl h

theorem twin_repairResponse {p q : Json} (h : Part.Twin R p q) :
    Part.Twin R (repairResponse p) (repairResponse q) := by
  cases h with
  | same => exact .same
  | @given part key fields id new hk hf hn h =>
    have ho := Json.isObject_of_field? hf
    rcases hk with rfl | rfl
    · have hresponse : ∀ call : Json,
          (part.putField "functionCall" call).field? "functionResponse" =
            part.field? "functionResponse" := fun call =>
        Json.field?_putField_of_ne (by decide) ..
      have hgiven := Part.Twin.given (R := R) (.inl rfl) hf hn h
      rw [repairResponse, hresponse, repairResponse, hresponse]
      split
      · exact hgiven
      · split
        · exact hgiven
        · exact hgiven
        · exact .same
      · exact .same
    · have hresult : ∀ id : Json, Members.get? "response" (Members.put "id" id fields) =
          Members.get? "response" fields := fun id => Members.get?_put_of_ne (by decide) ..
      have hname : ∀ id : Json, Members.get? "name" (Members.put "id" id fields) =
          Members.get? "name" fields := fun id => Members.get?_put_of_ne (by decide) ..
      have hgiven := Part.Twin.given (R := R) (.inr rfl) hf hn h
      rw [repairResponse, Json.field?_putField_self ho, repairResponse,
        Json.field?_putField_self ho]
      dsimp only
      rw [hresult, hresult, hname, hname, Part.usableId?_put h.usable.1,
        Part.usableId?_put h.usable.2]
      split
      · exact hgiven
      · exact hgiven
      · exact twin_rebuilt _ _ h

end Conversation

end Dialogue
