import Dialogue.Proofs.Conversation.Results

namespace Dialogue.Conversation

open Dialogue.Part (SameButId)

variable {key name : String} {part sent : Json} {parts linked : List Json}

def saidBy (key name : String) (part : Json) : List Members :=
  match part.field? key with
  | some (.object fields) => if functionName fields = name then [fields] else []
  | _ => []

def saidIn (key name : String) (parts : List Json) : List Members :=
  parts.flatMap (saidBy key name)

theorem saidBy_of_field? {fields : Members} (h : part.field? key = some (.object fields))
    (name : String) :
    saidBy key name part = if functionName fields = name then [fields] else [] := by
  rw [saidBy, h]

theorem saidBy_of_not_field? (h : ¬ ∃ fields, part.field? key = some (.object fields)) :
    saidBy key name part = [] := by
  rw [saidBy]
  split
  · next fields hf => exact absurd ⟨fields, hf⟩ h
  · rfl

def Identifies (key : String) (part : Json) : Prop :=
  ∀ fields, part.field? key = some (.object fields) → Part.usableId? fields ≠ none

theorem toList_idUnder? (key name : String) (part : Json) :
    (idUnder? key name part).toList = (saidBy key name part).filterMap Part.usableId? := by
  rw [idUnder?, saidBy]
  cases part.field? key with
  | none => rfl
  | some value =>
    cases value with
    | object fields =>
      dsimp only
      split
      · cases hid : Part.usableId? fields <;> simp [hid]
      · rfl
    | _ => rfl

theorem idsUnder_eq_filterMap (key name : String) (parts : List Json) :
    idsUnder key name parts = (saidIn key name parts).filterMap Part.usableId? := by
  rw [idsUnder, saidIn, List.filterMap_flatMap, List.filterMap_eq_flatMap_toList]
  simp only [toList_idUnder?]

theorem saidIn_eq_nil
    (h : ∀ part ∈ parts, ¬ ∃ fields, part.field? key = some (.object fields)) (name : String) :
    saidIn key name parts = [] :=
  List.flatMap_eq_nil_iff.2 fun part hp => saidBy_of_not_field? (h part hp)

theorem usableId?_of_mem_saidIn (h : ∀ part ∈ parts, Identifies key part) {fields : Members}
    (hm : fields ∈ saidIn key name parts) : Part.usableId? fields ≠ none := by
  obtain ⟨part, hp, hs⟩ := List.mem_flatMap.1 hm
  rw [saidBy] at hs
  split at hs
  · next fields' hf =>
    split at hs
    · rw [List.mem_singleton.1 hs]
      exact h part hp fields' hf
    · cases hs
  · cases hs

theorem map_usableId?_saidIn (h : ∀ part ∈ parts, Identifies key part) (name : String) :
    (saidIn key name parts).map Part.usableId? = (idsUnder key name parts).map some := by
  rw [idsUnder_eq_filterMap]
  have hids : ∀ fields ∈ saidIn key name parts, Part.usableId? fields ≠ none := fun _ hm =>
    usableId?_of_mem_saidIn h hm
  generalize saidIn key name parts = all at hids
  induction all with
  | nil => rfl
  | cons fields rest ih =>
    obtain ⟨id, hid⟩ := Option.ne_none_iff_exists'.1 (hids fields (.head _))
    rw [List.map_cons, List.filterMap_cons_some hid, List.map_cons, hid,
      ih fun f hf => hids f (.tail _ hf)]

theorem isUsable_of_mem_idsUnder {id : Json} (h : id ∈ idsUnder key name parts) :
    Part.IsUsable id := by
  obtain ⟨part, -, hid⟩ := List.mem_filterMap.1 h
  rw [idUnder?] at hid
  split at hid
  · split at hid
    · exact (Part.usableId?_eq_some.1 hid).2
    · cases hid
  · cases hid

theorem idsUnder_append (key name : String) (parts later : List Json) :
    idsUnder key name (parts ++ later) = idsUnder key name parts ++ idsUnder key name later :=
  List.filterMap_append

theorem length_saidBy (h : SameButId part sent) (key name : String) :
    (saidBy key name sent).length = (saidBy key name part).length := by
  by_cases hf : ∃ fields, part.field? key = some (.object fields)
  · obtain ⟨fields, hf⟩ := hf
    obtain ⟨fields', hf', hsame⟩ := h.field? hf
    have hname : functionName fields' = functionName fields := by
      rcases hsame with rfl | ⟨id, rfl⟩
      · rfl
      · exact functionName_put_id ..
    rw [saidBy_of_field? hf, saidBy_of_field? hf', hname]
    split <;> rfl
  · have hf' : ¬ ∃ fields, sent.field? key = some (.object fields) :=
      fun ⟨_, hs⟩ => hf (h.field?_of_sent hs)
    rw [saidBy_of_not_field? hf, saidBy_of_not_field? hf']

theorem length_saidIn (h : List.Forall₂ SameButId parts linked) (key name : String) :
    (saidIn key name linked).length = (saidIn key name parts).length := by
  induction h with
  | nil => rfl
  | cons hp _ ih =>
    rw [saidIn, saidIn] at ih
    rw [saidIn, saidIn, List.flatMap_cons, List.flatMap_cons, List.length_append,
      List.length_append, length_saidBy hp, ih]

theorem linkReplyPart_balance {state : Linking}
    (ha : ∀ fields, part.field? "functionResponse" = some (.object fields) →
      Part.usableId? fields = none)
    (he : ∀ name, (saidBy "functionResponse" name part).length ≤
      (state.registry.unanswered name).length)
    (hu : ∀ name, ∀ id ∈ state.registry.unanswered name, Part.IsUsable id) :
    Identifies "functionResponse" (linkReplyPart state part).2 ∧
      ∀ name, state.registry.unanswered name =
        (idUnder? "functionResponse" name (linkReplyPart state part).2).toList ++
          (linkReplyPart state part).1.registry.unanswered name := by
  by_cases hr : ∃ fields, part.field? "functionResponse" = some (.object fields)
  · obtain ⟨fields, hr⟩ := hr
    have hpos := he (functionName fields)
    rw [saidBy_of_field? hr, if_pos rfl] at hpos
    cases hq : state.registry.unanswered (functionName fields) with
    | nil =>
      rw [hq] at hpos
      cases hpos
    | cons id ids =>
      obtain ⟨hl, hleft⟩ := linkReplyPart_of_unanswered hr (ha fields hr) hq
      have hid : Part.IsUsable id := hu (functionName fields) id (by simp [hq])
      have hsent := Json.field?_putField_self (Json.isObject_of_field? hr) "functionResponse"
        (.object (Members.put "id" id fields))
      rw [hl]
      constructor
      · intro fields' hf
        rw [hsent] at hf
        cases hf
        rw [Part.usableId?_put hid]
        exact Option.some_ne_none id
      · intro name
        rw [hleft, idUnder?_of_field? hsent, functionName_put_id, Part.usableId?_put hid]
        split
        · next hn =>
          rw [← hn, hq]
          rfl
        · rfl
  · have hkept : linkReplyPart state part = (state, part) := by
      rw [linkReplyPart]
      split
      · next fields hf => exact absurd ⟨fields, hf⟩ hr
      · rfl
    rw [hkept]
    refine ⟨fun fields hf => absurd ⟨fields, hf⟩ hr, fun name => ?_⟩
    rw [idUnder?]
    split
    · next fields hf => exact absurd ⟨fields, hf⟩ hr
    · rfl

theorem idsUnder_cons (key name : String) (part : Json) (rest : List Json) :
    idsUnder key name (part :: rest) =
      (idUnder? key name part).toList ++ idsUnder key name rest := by
  rw [idsUnder, List.filterMap_eq_flatMap_toList, List.flatMap_cons, idsUnder,
    List.filterMap_eq_flatMap_toList]

theorem linkReplyParts_balance {state : Linking}
    (ha : ∀ part ∈ parts, ∀ fields, part.field? "functionResponse" = some (.object fields) →
      Part.usableId? fields = none)
    (he : ∀ name, (saidIn "functionResponse" name parts).length ≤
      (state.registry.unanswered name).length)
    (hu : ∀ name, ∀ id ∈ state.registry.unanswered name, Part.IsUsable id) :
    (∀ part ∈ (linkParts .user state parts).2, Identifies "functionResponse" part) ∧
      ∀ name, state.registry.unanswered name =
        idsUnder "functionResponse" name (linkParts .user state parts).2 ++
          (linkParts .user state parts).1.registry.unanswered name := by
  induction parts generalizing state with
  | nil => exact ⟨nofun, fun _ => rfl⟩
  | cons part rest ih =>
    have hsaid : ∀ name, (saidIn "functionResponse" name (part :: rest)).length =
        (saidBy "functionResponse" name part).length +
          (saidIn "functionResponse" name rest).length := fun name => by
      rw [saidIn, List.flatMap_cons, List.length_append, saidIn]
    obtain ⟨hidentifies, hbalance⟩ := linkReplyPart_balance (ha part (.head _))
      (fun name => Nat.le_of_add_right_le (hsaid name ▸ he name)) hu
    -- A response uses up one call at most, so enough are left for the rest.
    obtain ⟨hrest, hbalances⟩ := @ih (linkReplyPart state part).1
      (fun p hp => ha p (.tail _ hp))
      (fun name => by
        have hle := he name
        have hsame := length_saidBy (sameButId_linkPart .user state part) "functionResponse" name
        rw [linkPart] at hsame
        have hone := List.length_filterMap_le Part.usableId?
          (saidBy "functionResponse" name (linkReplyPart state part).2)
        rw [hsaid, hbalance, List.length_append, toList_idUnder?] at hle
        omega)
      (fun name id hid => hu name id (by rw [hbalance]; exact List.mem_append_right _ hid))
    constructor
    · intro p hp
      cases hp with
      | head => exact hidentifies
      | tail _ hp => exact hrest p hp
    · intro name
      rw [linkParts, idsUnder_cons, List.append_assoc]
      exact (hbalance name).trans (congrArg _ (hbalances name))

end Dialogue.Conversation
