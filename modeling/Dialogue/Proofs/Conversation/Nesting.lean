import Dialogue.Proofs.Conversation.Links
import Dialogue.Proofs.Delivery
import Dialogue.Proofs.Json.Nesting

namespace Dialogue

open Json (FitsIn)

variable {depth : Nat} {turn part : Json} {turns parts : List Json} {family : ModelFamily}

def TurnsFit (depth : Nat) (turns : List Json) : Prop := ∀ turn ∈ turns, FitsIn (depth + 5) turn

def PartsFit (depth : Nat) (parts : List Json) : Prop := ∀ part ∈ parts, FitsIn (depth + 3) part

theorem Turn.partsFit (h : FitsIn (depth + 5) turn) : PartsFit depth (Turn.parts turn) := by
  intro part hp
  rw [Turn.parts] at hp
  cases hparts : Turn.parts? turn with
  | none =>
    rw [hparts] at hp
    cases hp
  | some parts =>
    rw [hparts] at hp
    exact Json.fitsIn_array.1 (h.of_field? (Turn.field?_of_parts? hparts)) part hp

theorem Turn.fitsIn_withParts (h : FitsIn (depth + 5) turn) (hp : PartsFit depth parts) :
    FitsIn (depth + 5) (Turn.withParts turn parts) := h.putField (Json.fitsIn_array.2 hp) "parts"

namespace Conversation

theorem fitsIn_withRole (h : FitsIn (depth + 5) turn) (role : Role) :
    FitsIn (depth + 5) (withRole turn role) := by
  rw [withRole]
  split
  · exact h.putField (Json.fitsIn_string ..) "role"
  · exact h

theorem turnsFit_fillRoles (h : TurnsFit depth turns) (previous : Option Role) :
    TurnsFit depth (fillRoles previous turns) := by
  induction turns generalizing previous with
  | nil => exact h
  | cons turn rest ih =>
    obtain ⟨hturn, hrest⟩ := List.forall_mem_cons.1 h
    rw [fillRoles]
    split
    · exact List.forall_mem_cons.2 ⟨hturn, ih hrest _⟩
    · split
      · exact List.forall_mem_cons.2 ⟨fitsIn_withRole hturn _, ih hrest _⟩
      · exact List.forall_mem_cons.2 ⟨hturn, ih hrest _⟩

theorem fitsIn_continueTurn (depth : Nat) (text : String) :
    FitsIn (depth + 5) (continueTurn text) := by
  have h : FitsIn 3 (continueTurn text) := by
    refine Json.fitsIn_object.2 ⟨(by decide : ["role", "parts"].Nodup),
      List.forall_mem_cons.2 ⟨Json.fitsIn_string .., List.forall_mem_singleton.2 ?_⟩⟩
    exact Json.fitsIn_array.2 (List.forall_mem_singleton.2 (Json.fitsIn_object.2
      ⟨(by decide : ["text"].Nodup), List.forall_mem_singleton.2 (Json.fitsIn_string ..)⟩))
  exact h.mono (by omega)

theorem turnsFit_closed (h : TurnsFit depth turns) (family : ModelFamily) :
    TurnsFit depth (closed family turns) := by
  rw [closed]
  split
  · rw [askToContinue]
    split
    · next text _ =>
      intro turn ht
      rcases List.mem_append.1 ht with ht | ht
      · exact h turn (List.dropLast_subset _ ht)
      · rw [continuation] at ht
        split at ht
        · cases ht
        · rw [List.mem_singleton.1 ht]
          exact fitsIn_continueTurn depth text
    · exact h
  · exact h

def CallRegistry.IdsFit (depth : Nat) (registry : CallRegistry) : Prop :=
  ∀ name, ∀ id ∈ (registry.queue name).ids, FitsIn (depth + 1) id

theorem CallRegistry.IdsFit.record {registry : CallRegistry} (h : registry.IdsFit depth)
    {id : Json} (hid : FitsIn (depth + 1) id) (name : String) :
    (registry.record name id).IdsFit depth := by
  intro other
  rw [queue_record]
  split
  · exact List.forall_mem_append.2 ⟨h name, List.forall_mem_singleton.2 hid⟩
  · exact h other

theorem CallRegistry.IdsFit.claim {registry : CallRegistry} (h : registry.IdsFit depth)
    (name : String) :
    (registry.claim name).2.IdsFit depth ∧
      ∀ id ∈ (registry.claim name).1, FitsIn (depth + 1) id := by
  constructor
  · intro other
    rw [queue_claim]
    split
    · exact h name
    · exact h other
  · intro id hid
    rw [CallRegistry.claim] at hid
    split at hid
    · next hf =>
      cases hid
      exact h name _ (List.mem_of_getElem? hf)
    · cases hid

variable {state : Linking} (hs : state.registry.IdsFit depth)

include hs

theorem fitsIn_linkCall {fields : Members} (h : FitsIn (depth + 2) (.object fields)) :
    (linkCall state fields).1.registry.IdsFit depth ∧
      FitsIn (depth + 2) (.object (linkCall state fields).2) := by
  rw [linkCall]
  split
  · next id hid =>
    have hget : (Json.object fields).field? "id" = some id := (Part.usableId?_eq_some.1 hid).1
    exact ⟨hs.record (h.of_field? hget) _, h⟩
  · exact ⟨hs.record (Json.fitsIn_string ..) _, Json.fitsIn_put h (Json.fitsIn_string ..) "id"⟩

theorem fitsIn_linkResponse {fields : Members} (h : FitsIn (depth + 2) (.object fields)) :
    (linkResponse state fields).1.registry.IdsFit depth ∧
      FitsIn (depth + 2) (.object (linkResponse state fields).2) := by
  obtain ⟨hregistry, hid⟩ := hs.claim (functionName fields)
  rw [linkResponse]
  split
  · exact ⟨hs, h⟩
  · split
    · next id registry hc =>
      rw [hc] at hregistry hid
      exact ⟨hregistry, Json.fitsIn_put h (hid id rfl) "id"⟩
    · exact ⟨hs, h⟩

theorem fitsIn_linkPart (h : FitsIn (depth + 3) part) (role : Role) :
    (linkPart role state part).1.registry.IdsFit depth ∧
      FitsIn (depth + 3) (linkPart role state part).2 := by
  have hreply : (linkReplyPart state part).1.registry.IdsFit depth ∧
      FitsIn (depth + 3) (linkReplyPart state part).2 := by
    rw [linkReplyPart]
    split
    · next fields hf =>
      obtain ⟨hregistry, hfields⟩ := fitsIn_linkResponse hs (h.of_field? hf)
      exact ⟨hregistry, h.putField hfields _⟩
    · exact ⟨hs, h⟩
  cases role with
  | model =>
    rw [linkPart, linkModelPart]
    split
    · exact ⟨hs, h⟩
    · next fields hf =>
      obtain ⟨hregistry, hfields⟩ := fitsIn_linkCall hs (h.of_field? hf)
      exact ⟨hregistry, h.putField hfields _⟩
    · exact ⟨hs, h⟩
  | user => exact hreply
  | function => exact hreply
  | unset => exact ⟨hs, h⟩
  | invalid => exact ⟨hs, h⟩

theorem partsFit_linkParts (h : PartsFit depth parts) (role : Role) :
    (linkParts role state parts).1.registry.IdsFit depth ∧
      PartsFit depth (linkParts role state parts).2 := by
  induction parts generalizing state with
  | nil => exact ⟨hs, List.forall_mem_nil _⟩
  | cons part rest ih =>
    obtain ⟨hpart, hrest⟩ := List.forall_mem_cons.1 h
    obtain ⟨hregistry, hlinked⟩ := fitsIn_linkPart hs hpart role
    obtain ⟨hlast, htail⟩ := ih hregistry hrest
    exact ⟨hlast, List.forall_mem_cons.2 ⟨hlinked, htail⟩⟩

theorem fitsIn_linkTurn (h : FitsIn (depth + 5) turn) :
    (linkTurn state turn).1.registry.IdsFit depth ∧ FitsIn (depth + 5) (linkTurn state turn).2 := by
  rw [linkTurn]
  split
  · exact ⟨hs, h⟩
  · next parts hp =>
    have hparts := Turn.partsFit h
    rw [Turn.parts_of_parts? hp] at hparts
    obtain ⟨hregistry, hlinked⟩ := partsFit_linkParts hs hparts (Turn.role turn)
    exact ⟨hregistry, Turn.fitsIn_withParts h hlinked⟩

theorem turnsFit_linkTurns (h : TurnsFit depth turns) :
    TurnsFit depth (linkTurns state turns).2 := by
  induction turns generalizing state with
  | nil => exact List.forall_mem_nil _
  | cons turn rest ih =>
    obtain ⟨hturn, hrest⟩ := List.forall_mem_cons.1 h
    obtain ⟨hregistry, hlinked⟩ := fitsIn_linkTurn hs hturn
    exact List.forall_mem_cons.2 ⟨hlinked, ih hregistry hrest⟩

omit hs

theorem turnsFit_linked (h : TurnsFit depth turns) (ids : IdSource) :
    TurnsFit depth (Stage.linked ids turns) := turnsFit_linkTurns (fun _ => nofun) h

theorem fitsIn_markPart (h : FitsIn (depth + 3) part) : FitsIn (depth + 3) (markPart part) := by
  rw [markPart]
  split
  · exact h.putField (Json.fitsIn_string ..) signatureKey
  · exact h

theorem fitsIn_signedTurn (h : FitsIn (depth + 5) turn) (family : ModelFamily) :
    FitsIn (depth + 5) (signedTurn family turn) := by
  rw [signedTurn]
  split
  · exact h
  · rw [markTurn]
    split
    · next parts hr hp =>
      have hparts := Turn.partsFit h
      rw [Turn.parts_of_parts? hp] at hparts
      exact Turn.fitsIn_withParts h
        (List.forall_mem_map.2 fun part hm => fitsIn_markPart (hparts part hm))
    · exact h

theorem turnsFit_signed (h : TurnsFit depth turns) (family : ModelFamily) :
    TurnsFit depth (signed family turns) :=
  List.forall_mem_map.2 fun turn ht => fitsIn_signedTurn (h turn ht) family

theorem fitsIn_textResult (depth : Nat) (text : String) : FitsIn (depth + 1) (textResult text) :=
  Json.fitsIn_object.2
    ⟨(by decide : ["result"].Nodup), List.forall_mem_singleton.2 (Json.fitsIn_string ..)⟩

theorem fitsIn_repairResponse (h : FitsIn (depth + 3) part) :
    FitsIn (depth + 3) (repairResponse part) := by
  have hpart : ∀ fields, FitsIn (depth + 2) (.object fields) →
      FitsIn (depth + 3) (.object [("functionResponse", .object fields)]) := fun fields hf =>
    Json.fitsIn_object.2 ⟨(by decide : ["functionResponse"].Nodup), List.forall_mem_singleton.2 hf⟩
  have hfields : ∀ name text,
      FitsIn (depth + 2) (.object [("name", .string name), ("response", textResult text)]) :=
    fun name text => Json.fitsIn_object.2 ⟨(by decide : ["name", "response"].Nodup),
      List.forall_mem_cons.2
        ⟨Json.fitsIn_string .., List.forall_mem_singleton.2 (fitsIn_textResult ..)⟩⟩
  rw [repairResponse]
  split
  · exact h
  · next fields hf =>
    split
    · exact h
    · exact h
    · next result _ _ _ =>
      cases hid : Part.usableId? fields with
      | none => exact hpart _ (hfields ..)
      | some id =>
        have hget : (Json.object fields).field? "id" = some id := (Part.usableId?_eq_some.1 hid).1
        exact hpart _ (Json.fitsIn_put (hfields ..) ((h.of_field? hf).of_field? hget) "id")
  · exact hpart _ (hfields ..)

theorem partsFit_repaired (h : PartsFit depth parts) :
    PartsFit depth (parts.map repairResponse) :=
  List.forall_mem_map.2 fun part hp => fitsIn_repairResponse (h part hp)

theorem fitsIn_groupTurn (h : PartsFit depth parts) : FitsIn (depth + 5) (groupTurn parts) :=
  Json.fitsIn_object.2 ⟨(by decide : ["parts", "role"].Nodup),
    List.forall_mem_cons.2
      ⟨Json.fitsIn_array.2 h, List.forall_mem_singleton.2 (Json.fitsIn_string ..)⟩⟩

structure Grouper.Fit (depth : Nat) (g : Grouper) : Prop where
  output : TurnsFit depth g.output
  waiting : PartsFit depth g.waiting

namespace Grouper.Fit

variable {g : Grouper}

theorem emit (h : g.Fit depth) (needed : Nat) : (g.emit needed).Fit depth := by
  have htaken : PartsFit depth (g.waiting.take needed) := fun part hp =>
    h.waiting part (List.mem_of_mem_take hp)
  have hleft : PartsFit depth (g.waiting.drop needed) := fun part hp =>
    h.waiting part (List.mem_of_mem_drop hp)
  rw [Grouper.emit]
  dsimp only
  split
  · exact ⟨h.output, hleft⟩
  · exact ⟨List.forall_mem_append.2 ⟨h.output,
      List.forall_mem_singleton.2 (fitsIn_groupTurn (partsFit_repaired htaken))⟩, hleft⟩

theorem settleNewest (h : g.Fit depth) : g.settleNewest.Fit depth := by
  rw [Grouper.settleNewest]
  split
  · next newest others _ =>
    have hopen : Fit depth { g with pending := others } := ⟨h.output, h.waiting⟩
    exact hopen.emit newest
  · exact h

theorem pushPlain (h : g.Fit depth) (ht : FitsIn (depth + 5) turn) :
    (g.pushPlain turn).Fit depth :=
  ⟨List.forall_mem_append.2 ⟨h.output, List.forall_mem_singleton.2 ht⟩, h.waiting⟩

theorem push (h : g.Fit depth) (ht : FitsIn (depth + 5) turn) : (g.push turn).Fit depth := by
  have hparts : ∀ p : Json → Bool, PartsFit depth ((Turn.parts turn).filter p) := fun p part hm =>
    Turn.partsFit ht part (List.mem_filter.1 hm).1
  rw [Grouper.push]
  split
  · exact ⟨h.output, h.waiting⟩
  · split
    · exact h.pushPlain ht
    · have hsettled := settleNewest (g := { g with
        waiting := g.waiting ++ (Turn.parts turn).filter Part.isResponse })
        ⟨h.output, List.forall_mem_append.2 ⟨h.waiting, hparts _⟩⟩
      dsimp only
      split
      · exact hsettled
      · exact hsettled.pushPlain (Turn.fitsIn_withParts ht (hparts _))

theorem pushAll (h : g.Fit depth) (ht : TurnsFit depth turns) : (g.pushAll turns).Fit depth := by
  induction turns generalizing g with
  | nil => exact h
  | cons turn rest ih =>
    obtain ⟨hturn, hrest⟩ := List.forall_mem_cons.1 ht
    exact ih (h.push hturn) hrest

theorem flush (h : g.Fit depth) : g.flush.Fit depth := by
  have hfold : ∀ (pending : List Nat) {g : Grouper}, g.Fit depth →
      (pending.foldl settle g).Fit depth := by
    intro pending
    induction pending with
    | nil => exact fun h => h
    | cons needed rest ih =>
      intro g h
      refine ih ?_
      rw [settle]
      split
      · exact h.emit needed
      · exact h
  exact hfold _ ⟨h.output, h.waiting⟩

end Grouper.Fit

theorem turnsFit_grouped (h : TurnsFit depth turns) (target : Target) :
    TurnsFit depth (grouped target turns) := by
  rw [grouped]
  split
  · have hinitial : Grouper.Fit depth {} := ⟨List.forall_mem_nil _, List.forall_mem_nil _⟩
    exact (hinitial.pushAll h).flush.output
  · exact h

theorem turnsFit_delivered (h : TurnsFit depth turns) (target : Target) (family : ModelFamily)
    (ids : IdSource) : TurnsFit depth (delivered target family ids turns) :=
  turnsFit_grouped (turnsFit_signed
    (turnsFit_linked (turnsFit_closed (turnsFit_fillRoles h none) family) ids) family) target

end Conversation

end Dialogue
