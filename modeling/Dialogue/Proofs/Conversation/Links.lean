import Dialogue.Conversation.Links
import Dialogue.Proofs.Turn
import Mathlib.Data.List.Forall2

namespace Dialogue

namespace Part

def IsUsable (id : Json) : Prop := id ≠ .null ∧ id ≠ .string ""

theorem isUsable_string {id : String} (h : id ≠ "") : IsUsable (.string id) :=
  ⟨nofun, fun he => h (Json.string.inj he)⟩

theorem usableId?_eq_some {fields : Members} {id : Json} :
    usableId? fields = some id ↔ Members.get? "id" fields = some id ∧ IsUsable id := by
  unfold usableId? IsUsable
  split
  · simp_all
  · simp_all
  · simp_all
  · next hnull hempty hid =>
    rw [hid]
    constructor
    · intro h
      cases h
      exact ⟨rfl, hnull, hempty⟩
    · exact fun h => h.1

theorem usableId?_put {id : Json} (h : IsUsable id) (fields : Members) :
    usableId? (Members.put "id" id fields) = some id :=
  usableId?_eq_some.2 ⟨Members.get?_put_self .., h⟩

end Part

namespace Conversation

theorem functionName_put_id (id : Json) (fields : Members) :
    functionName (Members.put "id" id fields) = functionName fields := by
  rw [functionName, functionName, Members.get?_put_of_ne (by decide)]

def idUnder? (key name : String) (part : Json) : Option Json :=
  match part.field? key with
  | some (.object fields) => if functionName fields = name then Part.usableId? fields else none
  | _ => none

def idsUnder (key name : String) (parts : List Json) : List Json :=
  parts.filterMap (idUnder? key name)

theorem idUnder?_of_field? {key : String} {part : Json} {fields : Members}
    (h : part.field? key = some (.object fields)) (name : String) :
    idUnder? key name part =
      if functionName fields = name then Part.usableId? fields else none := by
  rw [idUnder?, h]

namespace CallRegistry

def unanswered (registry : CallRegistry) (name : String) : List Json :=
  (registry.queue name).ids.drop (registry.queue name).answered

def Sound (registry : CallRegistry) : Prop :=
  ∀ name, (registry.queue name).answered ≤ (registry.queue name).ids.length

variable {registry : CallRegistry}

theorem sound_initial : Sound {} := fun _ => Nat.le_refl 0

theorem Sound.record (h : registry.Sound) (name : String) (id : Json) :
    (registry.record name id).Sound := by
  intro other
  rw [queue_record]
  split
  · simp only [CallQueue.record, List.length_append]
    exact Nat.le_add_right_of_le (h name)
  · exact h other

theorem unanswered_record (h : registry.Sound) (name other : String) (id : Json) :
    (registry.record name id).unanswered other =
      registry.unanswered other ++ if name = other then [id] else [] := by
  rw [unanswered, queue_record]
  split
  · next he =>
    subst he
    exact List.drop_append_of_le_length (h name)
  · exact (List.append_nil _).symm

theorem Sound.claim (h : registry.Sound) (name : String) : (registry.claim name).2.Sound := by
  intro other
  rw [queue_claim]
  split
  · next hf => exact (List.getElem?_eq_some_iff.1 (Option.get_mem hf.2)).1
  · exact h other

theorem claim_of_unanswered {name : String} {id : Json} {rest : List Json}
    (hu : registry.unanswered name = id :: rest) :
    (registry.claim name).1 = some id ∧
      ∀ other, (registry.claim name).2.unanswered other =
        if name = other then rest else registry.unanswered other := by
  have hlt : (registry.queue name).answered < (registry.queue name).ids.length := by
    rw [← List.drop_eq_nil_iff.not.trans Nat.not_le]
    exact fun hn => by rw [unanswered, hn] at hu; cases hu
  have hd := List.drop_eq_getElem_cons hlt
  rw [← unanswered, hu, List.cons.injEq] at hd
  have hf : (registry.queue name).front? = some id := by
    rw [CallQueue.front?, List.getElem?_eq_getElem hlt, ← hd.1]
  refine ⟨by rw [CallRegistry.claim, hf], fun other => ?_⟩
  rw [unanswered, queue_claim, hf]
  simp only [Option.isSome_some, and_true]
  split
  · exact hd.2.symm
  · rfl

theorem claim_of_unanswered_nil {name : String}
    (h : registry.unanswered name = []) : registry.claim name = (none, registry) := by
  have hf : (registry.queue name).front? = none := by
    rw [CallQueue.front?, List.getElem?_eq_none_iff, ← List.drop_eq_nil_iff]
    exact h
  rw [CallRegistry.claim, hf]

end CallRegistry

structure Linking.Sound (state : Linking) : Prop where
  registry : state.registry.Sound
  ids : state.ids.Nonempty

inductive Identified : Json → Json → Prop where
  | kept {part : Json}
      (h : ∀ fields, part.field? "functionCall" = some (.object fields) →
        Part.usableId? fields ≠ none) : Identified part part
  | given {part : Json} {fields : Members} {id : String}
      (hc : part.field? "functionCall" = some (.object fields))
      (hn : Part.usableId? fields = none) (hid : id ≠ "") :
      Identified part
        (part.putField "functionCall" (.object (Members.put "id" (.string id) fields)))

namespace Identified

variable {part identified : Json}

theorem isUsable (h : Identified part identified) {fields : Members}
    (hc : identified.field? "functionCall" = some (.object fields)) :
    ∃ id, Members.get? "id" fields = some id ∧ Part.IsUsable id := by
  cases h with
  | kept h =>
    obtain ⟨id, hid⟩ := Option.ne_none_iff_exists'.1 (h fields hc)
    exact ⟨id, Part.usableId?_eq_some.1 hid⟩
  | given hp hn hid =>
    rw [Json.field?_putField_self (Json.isObject_of_field? hp)] at hc
    cases hc
    exact ⟨_, Members.get?_put_self .., Part.isUsable_string hid⟩

theorem kind (h : Identified part identified) : Part.kind identified = Part.kind part := by
  cases h with
  | kept => rfl
  | given hc =>
    rw [Part.kind_of_functionCall hc,
      Part.kind_of_functionCall (Json.field?_putField_self (Json.isObject_of_field? hc) ..)]

end Identified

namespace Linking

variable {state : Linking}

theorem Sound.of_linkModelPart (h : state.Sound) (part : Json) :
    (linkModelPart state part).1.Sound := by
  rw [linkModelPart]
  split
  · exact h
  · dsimp only
    rw [linkCall]
    split
    · exact ⟨h.registry.record _ _, h.ids⟩
    · exact ⟨h.registry.record _ _, h.ids⟩
  · exact ⟨h.registry, h.ids⟩

theorem Sound.of_linkReplyPart (h : state.Sound) (part : Json) :
    (linkReplyPart state part).1.Sound := by
  rw [linkReplyPart]
  split
  · next fields _ =>
    dsimp only
    rw [linkResponse]
    split
    · exact h
    · split
      · next id registry hc =>
        refine ⟨?_, h.ids⟩
        have hs := h.registry.claim (functionName fields)
        rwa [hc] at hs
      · exact ⟨h.registry, h.ids⟩
  · exact h

theorem Sound.of_linkPart (h : state.Sound) (role : Role) (part : Json) :
    (linkPart role state part).1.Sound := by
  cases role with
  | model => exact h.of_linkModelPart part
  | user => exact h.of_linkReplyPart part
  | function => exact h.of_linkReplyPart part
  | unset => exact h
  | invalid => exact h

theorem Sound.of_linkParts (h : state.Sound) (role : Role) (parts : List Json) :
    (linkParts role state parts).1.Sound := by
  induction parts generalizing state with
  | nil => exact h
  | cons part rest ih => exact ih (h.of_linkPart role part)

theorem Sound.of_linkTurn (h : state.Sound) (turn : Json) : (linkTurn state turn).1.Sound := by
  rw [linkTurn]
  split
  · exact h
  · exact h.of_linkParts ..

theorem Sound.of_linkTurns (h : state.Sound) (turns : List Json) :
    (linkTurns state turns).1.Sound := by
  induction turns generalizing state with
  | nil => exact h
  | cons turn rest ih => exact ih (h.of_linkTurn turn)

end Linking

theorem linkCall_spec {state : Linking} (h : state.Sound) (fields : Members) :
    ((Part.usableId? fields ≠ none ∧ (linkCall state fields).2 = fields) ∨
      (Part.usableId? fields = none ∧ ∃ id, id ≠ "" ∧
        (linkCall state fields).2 = Members.put "id" (.string id) fields)) ∧
      ∀ name, (linkCall state fields).1.registry.unanswered name =
        state.registry.unanswered name ++
          (if functionName fields = name then Part.usableId? (linkCall state fields).2
            else none).toList := by
  rw [linkCall]
  split
  · next id hid =>
    refine ⟨.inl ⟨?_, rfl⟩, fun name => ?_⟩
    · rw [hid]
      exact Option.some_ne_none id
    · rw [CallRegistry.unanswered_record h.registry, hid]
      split <;> rfl
  · next hn =>
    refine ⟨.inr ⟨hn, _, h.ids _, rfl⟩, fun name => ?_⟩
    dsimp only
    rw [CallRegistry.unanswered_record h.registry]
    have hu : Part.IsUsable (.string state.ids.next) := Part.isUsable_string (h.ids _)
    rw [Part.usableId?_put hu]
    split <;> rfl

theorem linkModelPart_spec {state : Linking} (h : state.Sound) (part : Json) :
    Identified part (linkModelPart state part).2 ∧
      ∀ name, (linkModelPart state part).1.registry.unanswered name =
        state.registry.unanswered name ++
          (idUnder? "functionCall" name (linkModelPart state part).2).toList := by
  rw [linkModelPart]
  split
  · next hc =>
    refine ⟨.kept fun fields hf => ?_, fun name => ?_⟩
    · rw [hc] at hf
      cases hf
    · rw [idUnder?, hc]
      exact (List.append_nil _).symm
  · next fields hc =>
    have ho := Json.isObject_of_field? hc
    obtain ⟨hput, hu⟩ := linkCall_spec h fields
    dsimp only
    rcases hput with ⟨hid, hf⟩ | ⟨hn, id, hid, hf⟩
    · rw [hf, Json.putField_of_field? hc]
      refine ⟨.kept fun fields' hf' => ?_, fun name => ?_⟩
      · rw [hc] at hf'
        cases hf'
        exact hid
      · rw [hu, hf, idUnder?_of_field? hc]
    · rw [hf]
      refine ⟨.given hc hn hid, fun name => ?_⟩
      rw [hu, hf, idUnder?_of_field? (Json.field?_putField_self ho ..), functionName_put_id]
  · next value hno hc =>
    refine ⟨.kept fun fields hf => ?_, fun name => ?_⟩
    · rw [hc] at hf
      exact absurd (Option.some.inj hf) (hno fields)
    · rw [idUnder?, hc]
      split
      · next hf => exact absurd (Option.some.inj hf) (hno _)
      · exact (List.append_nil _).symm

theorem linkModelParts_spec {state : Linking} (h : state.Sound) (parts : List Json) :
    List.Forall₂ Identified parts (linkParts .model state parts).2 ∧
      ∀ name, (linkParts .model state parts).1.registry.unanswered name =
        state.registry.unanswered name ++
          idsUnder "functionCall" name (linkParts .model state parts).2 := by
  induction parts generalizing state with
  | nil => exact ⟨.nil, fun _ => (List.append_nil _).symm⟩
  | cons part rest ih =>
    obtain ⟨hp, hu⟩ := linkModelPart_spec h part
    obtain ⟨hps, hus⟩ := ih (h.of_linkModelPart part)
    refine ⟨.cons hp hps, fun name => ?_⟩
    rw [linkParts, linkPart, hus, hu, List.append_assoc, idsUnder, idsUnder]
    congr 1
    cases hid : idUnder? "functionCall" name (linkModelPart state part).2 with
    | none => rw [List.filterMap_cons_none hid]; rfl
    | some id => rw [List.filterMap_cons_some hid]; rfl

theorem linkReplyPart_of_unanswered {state : Linking} {part id : Json} {fields : Members}
    {rest : List Json} (hr : part.field? "functionResponse" = some (.object fields))
    (hn : Part.usableId? fields = none)
    (hu : state.registry.unanswered (functionName fields) = id :: rest) :
    (linkReplyPart state part).2 =
        part.putField "functionResponse" (.object (Members.put "id" id fields)) ∧
      ∀ name, (linkReplyPart state part).1.registry.unanswered name =
        if functionName fields = name then rest else state.registry.unanswered name := by
  obtain ⟨hid, hrest⟩ := CallRegistry.claim_of_unanswered hu
  rw [linkReplyPart, hr]
  dsimp only
  rw [linkResponse, hn]
  dsimp only
  split
  · next id' registry hc =>
    rw [hc] at hid hrest
    cases hid
    exact ⟨rfl, hrest⟩
  · next hc =>
    rw [hc] at hid
    cases hid

structure Linked (turn linked : Json) : Prop where
  isObject : linked.isObject = turn.isObject
  role : Turn.role linked = Turn.role turn
  identified : Turn.role turn = .model →
    List.Forall₂ Identified (Turn.parts turn) (Turn.parts linked)

theorem linkTurn_linked {state : Linking} (h : state.Sound) (turn : Json) :
    Linked turn (linkTurn state turn).2 := by
  rw [linkTurn]
  split
  · next hp =>
    refine ⟨rfl, rfl, fun _ => ?_⟩
    rw [Turn.parts, hp]
    exact .nil
  · next parts hp =>
    have ho := Turn.isObject_of_parts? hp
    refine ⟨Turn.isObject_withParts .., Turn.role_withParts .., fun hr => ?_⟩
    rw [Turn.parts_of_parts? hp, Turn.parts_withParts ho, hr]
    exact (linkModelParts_spec h parts).1

theorem linkTurns_linked {state : Linking} (h : state.Sound) (turns : List Json) :
    List.Forall₂ Linked turns (linkTurns state turns).2 := by
  induction turns generalizing state with
  | nil => exact .nil
  | cons turn rest ih => exact .cons (linkTurn_linked h turn) (ih (h.of_linkTurn turn))

end Conversation

end Dialogue
