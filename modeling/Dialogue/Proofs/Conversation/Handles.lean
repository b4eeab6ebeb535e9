import Dialogue.Proofs.Conversation.InStep

/-!
Which calls the responses of the user say they answer.  A response that names its call is left
alone and uses up nothing, so the call it names can be given to another response as well.
-/

namespace Dialogue.Conversation

variable {key : String} {part sent turn : Json} {parts turns linked : List Json}

/-- What tells a call from the others: its function and its identifier. -/
structure Handle where
  name : String
  id : Json
  deriving DecidableEq

def handle? (fields : Members) : Option Handle :=
  (Part.usableId? fields).map (⟨functionName fields, ·⟩)

def handles (all : List Members) : List Handle := all.filterMap handle?

def ofFunction (name : String) (all : List Handle) : List Handle := all.filter (·.name = name)

def held? (key : String) (part : Json) : Option Members :=
  match part.field? key with
  | some (.object fields) => some fields
  | _ => none

def held (key : String) (parts : List Json) : List Members := parts.filterMap (held? key)

def modelCalls (turns : List Json) : List Members :=
  held "functionCall" ((turns.filter (Turn.role · = .model)).flatMap Turn.parts)

def userResponses (turns : List Json) : List Members :=
  held "functionResponse" ((fromUser turns).flatMap Turn.parts)

/-- The call that a response was given, if it came without an identifier. -/
def taken? (pair : Members × Members) : Option Handle :=
  if (Part.usableId? pair.1).isNone then handle? pair.2 else none

def taken (before after : List Members) : List Handle := (before.zip after).filterMap taken?

def Settled (before after : Members) : Prop :=
  after = before ∨ Part.usableId? before = none ∧ ∃ id, after = Members.put "id" id before

namespace CallRegistry

def waiting (registry : CallRegistry) (name : String) : List Handle :=
  (registry.unanswered name).map (⟨name, ·⟩)

def Usable (registry : CallRegistry) : Prop :=
  ∀ name, ∀ id ∈ registry.unanswered name, Part.IsUsable id

end CallRegistry

/-! ### Handles -/

theorem held?_of_field? {fields : Members} (h : part.field? key = some (.object fields)) :
    held? key part = some fields := by rw [held?, h]

theorem held?_eq_some {fields : Members} :
    held? key part = some fields ↔ part.field? key = some (.object fields) := by
  rw [held?]
  split
  · next fields' h => rw [h, Option.some.injEq, Option.some.injEq, Json.object.injEq]
  · next h =>
    refine ⟨nofun, fun hf => absurd hf (h fields)⟩

theorem held_cons (key : String) (part : Json) (rest : List Json) :
    held key (part :: rest) = (held? key part).toList ++ held key rest := by
  rw [held, List.filterMap_cons, held]
  cases held? key part <;> rfl

theorem held_append (key : String) (front back : List Json) :
    held key (front ++ back) = held key front ++ held key back := List.filterMap_append

theorem handles_append (front back : List Members) :
    handles (front ++ back) = handles front ++ handles back := List.filterMap_append

theorem ofFunction_append (name : String) (front back : List Handle) :
    ofFunction name (front ++ back) = ofFunction name front ++ ofFunction name back :=
  List.filter_append ..

theorem count_ofFunction (handle : Handle) (all : List Handle) :
    (ofFunction handle.name all).count handle = all.count handle :=
  List.count_filter (decide_eq_true rfl)

theorem taken_append {before before' after after' : List Members}
    (h : before.length = after.length) :
    taken (before ++ before') (after ++ after') = taken before after ++ taken before' after' := by
  rw [taken, List.zip_append h, List.filterMap_append, taken, taken]

theorem map_id_handles (all : List Members) :
    (handles all).map Handle.id = all.filterMap Part.usableId? := by
  rw [handles, List.map_filterMap]
  congr 1
  funext fields
  rw [handle?, Option.map_map]
  exact Option.map_id'

theorem Settled.eq_of_usable {before after : Members} (h : Settled before after)
    (hu : Part.usableId? before ≠ none) : after = before := by
  rcases h with h | ⟨hn, -⟩
  · exact h
  · exact absurd hn hu

theorem handles_cons (fields : Members) (rest : List Members) :
    handles (fields :: rest) = (handle? fields).toList ++ handles rest := by
  rw [handles, List.filterMap_cons, handles]
  cases handle? fields <;> rfl

theorem taken_cons (before after : Members) (befores afters : List Members) :
    taken (before :: befores) (after :: afters) =
      (taken? (before, after)).toList ++ taken befores afters := by
  rw [taken, List.zip_cons_cons, List.filterMap_cons, taken]
  cases taken? (before, after) <;> rfl

theorem handle?_eq_none {fields : Members} (h : Part.usableId? fields = none) :
    handle? fields = none := by rw [handle?, h, Option.map_none]

theorem taken?_of_usable {before after : Members} (h : Part.usableId? before ≠ none) :
    taken? (before, after) = none := if_neg (by simpa using h)

theorem taken?_of_anonymous {before after : Members} (h : Part.usableId? before = none) :
    taken? (before, after) = handle? after := if_pos (Option.isNone_iff_eq_none.2 h)

theorem taken?_self (fields : Members) : taken? (fields, fields) = none := by
  cases hu : Part.usableId? fields with
  | none => rw [taken?_of_anonymous hu, handle?_eq_none hu]
  | some id => exact taken?_of_usable (by rw [hu]; exact Option.some_ne_none id)

theorem handles_perm {before after : List Members} (h : List.Forall₂ Settled before after) :
    (handles after).Perm (handles before ++ taken before after) := by
  induction h with
  | nil => exact .refl _
  | @cons b a bs as hs _ ih =>
    rw [handles_cons, handles_cons, taken_cons]
    by_cases hu : Part.usableId? b = none
    · rw [taken?_of_anonymous hu, handle?_eq_none hu, Option.toList_none, List.nil_append]
      exact (ih.append_left _).trans (List.perm_append_comm_assoc ..)
    · rw [taken?_of_usable hu, hs.eq_of_usable hu, Option.toList_none, List.nil_append,
        List.append_assoc]
      exact ih.append_left _

/-! ### Linking a part -/

structure Replied (registry registry' : CallRegistry) (before after : List Members) : Prop where
  sound : registry'.Sound
  settled : List.Forall₂ Settled before after
  balance : ∀ name, registry.waiting name =
    ofFunction name (taken before after) ++ registry'.waiting name

structure Recorded (registry registry' : CallRegistry) (after : List Members) : Prop where
  sound : registry'.Sound
  balance : ∀ name,
    registry'.waiting name = registry.waiting name ++ ofFunction name (handles after)

section

variable {registry registry' registry'' : CallRegistry} {before before' after after' : List Members}

theorem Replied.nil (h : registry.Sound) : Replied registry registry [] [] :=
  ⟨h, .nil, fun _ => rfl⟩

theorem Replied.append (h : Replied registry registry' before after)
    (h' : Replied registry' registry'' before' after') :
    Replied registry registry'' (before ++ before') (after ++ after') where
  sound := h'.sound
  settled := List.rel_append h.settled h'.settled
  balance := by
    intro name
    rw [taken_append h.settled.length_eq, ofFunction_append, h.balance, h'.balance,
      List.append_assoc]

theorem Replied.usable (h : Replied registry registry' before after) (hu : registry.Usable) :
    registry'.Usable := by
  intro name id hid
  have hmem : (⟨name, id⟩ : Handle) ∈ registry.waiting name := by
    rw [h.balance]
    exact List.mem_append_right _ (List.mem_map_of_mem hid)
  obtain ⟨id', hid', he⟩ := List.mem_map.1 hmem
  cases he
  exact hu name id hid'

theorem Recorded.nil (h : registry.Sound) : Recorded registry registry [] :=
  ⟨h, fun _ => (List.append_nil _).symm⟩

theorem Recorded.append (h : Recorded registry registry' after)
    (h' : Recorded registry' registry'' after') :
    Recorded registry registry'' (after ++ after') where
  sound := h'.sound
  balance := by
    intro name
    rw [h'.balance, h.balance, handles_append, ofFunction_append, List.append_assoc]

end

variable {state : Linking}

theorem taken_put {fields : Members} {id : Json} (hn : Part.usableId? fields = none)
    (hid : Part.IsUsable id) :
    taken [fields] [Members.put "id" id fields] = [⟨functionName fields, id⟩] := by
  rw [taken_cons, taken?_of_anonymous hn, handle?, Part.usableId?_put hid, functionName_put_id]
  rfl

theorem linkResponse_replied (hs : state.registry.Sound) (hu : state.registry.Usable)
    (fields : Members) :
    Replied state.registry (linkResponse state fields).1.registry [fields]
      [(linkResponse state fields).2] := by
  have hkept : Replied state.registry state.registry [fields] [fields] := by
    refine ⟨hs, .cons (.inl rfl) .nil, fun name => ?_⟩
    rw [taken_cons, taken?_self]
    rfl
  rw [linkResponse]
  cases hn : Part.usableId? fields with
  | some id => exact hkept
  | none =>
    cases hq : state.registry.unanswered (functionName fields) with
    | nil =>
      rw [CallRegistry.claim_of_unanswered_nil hq]
      exact hkept
    | cons id rest =>
      have husable : Part.IsUsable id := hu (functionName fields) id (by rw [hq]; exact .head _)
      have hsound := hs.claim (functionName fields)
      obtain ⟨hid, hrest⟩ := CallRegistry.claim_of_unanswered hq
      generalize state.registry.claim (functionName fields) = claimed at hid hrest hsound
      obtain ⟨_, registry⟩ := claimed
      cases hid
      refine ⟨hsound, .cons (.inr ⟨hn, id, rfl⟩) .nil, fun name => ?_⟩
      dsimp only at hrest ⊢
      rw [taken_put hn husable, CallRegistry.waiting, CallRegistry.waiting, hrest]
      by_cases hname : functionName fields = name
      · subst hname
        rw [if_pos rfl, hq]
        simp [ofFunction]
      · rw [if_neg hname]
        simp [ofFunction, hname]

theorem linkReplyPart_replied (hs : state.registry.Sound) (hu : state.registry.Usable)
    (part : Json) :
    Replied state.registry (linkReplyPart state part).1.registry
      (held? "functionResponse" part).toList
      (held? "functionResponse" (linkReplyPart state part).2).toList := by
  rw [linkReplyPart]
  split
  · next fields hf =>
    rw [held?_of_field? hf,
      held?_of_field? (Json.field?_putField_self (Json.isObject_of_field? hf) ..)]
    exact linkResponse_replied hs hu fields
  · next hf =>
    have hnone : held? "functionResponse" part = none :=
      Option.eq_none_iff_forall_ne_some.2 fun fields h => hf fields (held?_eq_some.1 h)
    rw [hnone]
    exact .nil hs

theorem linkReplyParts_replied (hs : state.registry.Sound) (hu : state.registry.Usable)
    (parts : List Json) :
    Replied state.registry (linkParts .user state parts).1.registry (held "functionResponse" parts)
      (held "functionResponse" (linkParts .user state parts).2) := by
  induction parts generalizing state with
  | nil => exact .nil hs
  | cons part rest ih =>
    have hpart := linkReplyPart_replied hs hu part
    rw [linkParts, held_cons, held_cons]
    exact hpart.append (ih hpart.sound (hpart.usable hu))

theorem CallRegistry.recorded_record {registry : CallRegistry} (hs : registry.Sound)
    {fields : Members} {id : Json} (h : Part.usableId? fields = some id) :
    Recorded registry (registry.record (functionName fields) id) [fields] := by
  refine ⟨hs.record _ _, fun name => ?_⟩
  rw [CallRegistry.waiting, CallRegistry.unanswered_record hs, List.map_append, handles_cons,
    handle?, h, CallRegistry.waiting]
  by_cases hname : functionName fields = name
  · subst hname
    simp [ofFunction, handles]
  · simp [ofFunction, handles, hname]

theorem linkCall_recorded (hs : state.registry.Sound) {fields : Members}
    (hu : Part.usableId? (linkCall state fields).2 ≠ none) :
    Recorded state.registry (linkCall state fields).1.registry [(linkCall state fields).2] := by
  rw [linkCall] at hu ⊢
  cases hn : Part.usableId? fields with
  | some id => exact CallRegistry.recorded_record hs hn
  | none =>
    rw [hn] at hu
    dsimp only at hu ⊢
    obtain ⟨id, hid⟩ := Option.ne_none_iff_exists'.1 hu
    have hput := (Part.usableId?_eq_some.1 hid).1
    rw [Members.get?_put_self, Option.some.injEq] at hput
    rw [← functionName_put_id (.string state.ids.next) fields]
    exact CallRegistry.recorded_record hs (hput ▸ hid)

theorem linkModelPart_recorded (hs : state.registry.Sound)
    (hu : ∀ fields, held? "functionCall" (linkModelPart state part).2 = some fields →
      Part.usableId? fields ≠ none) :
    Recorded state.registry (linkModelPart state part).1.registry
      (held? "functionCall" (linkModelPart state part).2).toList := by
  have hkept : held? "functionCall" part = none →
      Recorded state.registry state.registry (held? "functionCall" part).toList := by
    intro hn
    rw [hn]
    exact .nil hs
  rw [linkModelPart] at hu ⊢
  split at hu
  · next hf => exact hkept (by rw [held?, hf])
  · next fields hf =>
    have hsent := held?_of_field? (Json.field?_putField_self (Json.isObject_of_field? hf)
      "functionCall" (.object (linkCall state fields).2))
    rw [hsent]
    exact linkCall_recorded hs (hu _ hsent)
  · next value hf hv => exact hkept (by rw [held?, hv]; split <;> simp_all)

theorem linkModelParts_recorded (hs : state.registry.Sound)
    (hu : ∀ fields ∈ held "functionCall" (linkParts .model state parts).2,
      Part.usableId? fields ≠ none) :
    Recorded state.registry (linkParts .model state parts).1.registry
      (held "functionCall" (linkParts .model state parts).2) := by
  induction parts generalizing state with
  | nil => exact .nil hs
  | cons part rest ih =>
    rw [linkParts, held_cons] at hu ⊢
    have hpart := linkModelPart_recorded hs fun fields hf =>
      hu fields (List.mem_append_left _ (Option.mem_toList.2 hf))
    exact hpart.append (ih hpart.sound fun fields hf => hu fields (List.mem_append_right _ hf))

/-! ### Linking a conversation -/

theorem modelCalls_append (front back : List Json) :
    modelCalls (front ++ back) = modelCalls front ++ modelCalls back := by
  rw [modelCalls, List.filter_append, List.flatMap_append, held_append, modelCalls, modelCalls]

theorem userResponses_append (front back : List Json) :
    userResponses (front ++ back) = userResponses front ++ userResponses back := by
  rw [userResponses, fromUser, List.filter_append, List.flatMap_append, held_append, userResponses,
    userResponses, fromUser, fromUser]

theorem modelCalls_singleton (h : Turn.role turn = .model) :
    modelCalls [turn] = held "functionCall" (Turn.parts turn) := by
  rw [modelCalls, List.filter_cons_of_pos (by simpa using h), List.filter_nil,
    List.flatMap_singleton]

theorem modelCalls_singleton_of_ne (h : Turn.role turn ≠ .model) : modelCalls [turn] = [] := by
  rw [modelCalls, List.filter_cons_of_neg (by simpa using h)]
  rfl

theorem userResponses_singleton (h : Turn.role turn = .user) :
    userResponses [turn] = held "functionResponse" (Turn.parts turn) := by
  rw [userResponses, fromUser, List.filter_cons_of_pos (by simpa using h), List.filter_nil,
    List.flatMap_singleton]

theorem userResponses_singleton_of_ne (h : Turn.role turn ≠ .user) : userResponses [turn] = [] := by
  rw [userResponses, fromUser, List.filter_cons_of_neg (by simpa using h)]
  rfl

theorem mem_userResponses {response : Members} :
    response ∈ userResponses turns ↔ ∃ turn ∈ turns, response ∈ userResponses [turn] := by
  induction turns with
  | nil => simp [userResponses, fromUser, held]
  | cons turn rest ih =>
    rw [← List.singleton_append, userResponses_append, List.mem_append, ih]
    simp

/-- Of the calls so far, those that responses took come first, and the others are waiting. -/
structure Ledger (registry : CallRegistry) (turns linked : List Json) : Prop where
  sound : registry.Sound
  settled : List.Forall₂ Settled (userResponses turns) (userResponses linked)
  balance : ∀ name, ofFunction name (handles (modelCalls linked)) =
    ofFunction name (taken (userResponses turns) (userResponses linked)) ++ registry.waiting name

namespace Ledger

theorem initial : Ledger {} [] [] := ⟨CallRegistry.sound_initial, .nil, fun _ => rfl⟩

theorem usable (h : Ledger state.registry turns linked) : state.registry.Usable := by
  intro name id hid
  have hmem : (⟨name, id⟩ : Handle) ∈ ofFunction name (handles (modelCalls linked)) := by
    rw [h.balance]
    exact List.mem_append_right _ (List.mem_map_of_mem hid)
  obtain ⟨fields, -, hf⟩ := List.mem_filterMap.1 (List.mem_filter.1 hmem).1
  obtain ⟨id', hid', he⟩ := Option.map_eq_some_iff.1 hf
  cases he
  exact (Part.usableId?_eq_some.1 hid').2

theorem concat_user (h : Ledger state.registry turns linked) (hr : Turn.role turn = .user) :
    Ledger (linkTurn state turn).1.registry (turns ++ [turn])
      (linked ++ [(linkTurn state turn).2]) := by
  have hrole : Turn.role (linkTurn state turn).2 = .user := (role_linkTurn ..).trans hr
  obtain ⟨hstate, hparts⟩ := linkTurn_parts state turn
  have hreplied := linkReplyParts_replied h.sound h.usable (Turn.parts turn)
  rw [hr] at hstate hparts
  rw [← hstate, ← hparts, ← userResponses_singleton hr, ← userResponses_singleton hrole]
    at hreplied
  refine ⟨hreplied.sound, ?_, fun name => ?_⟩
  · rw [userResponses_append, userResponses_append]
    exact List.rel_append h.settled hreplied.settled
  · rw [modelCalls_append, modelCalls_singleton_of_ne (by rw [hrole]; exact nofun),
      List.append_nil, userResponses_append, userResponses_append,
      taken_append h.settled.length_eq, ofFunction_append, h.balance, hreplied.balance,
      List.append_assoc]

theorem concat_model (h : Ledger state.registry turns linked) (hr : Turn.role turn = .model)
    (hu : ∀ call ∈ modelCalls [(linkTurn state turn).2], Part.usableId? call ≠ none) :
    Ledger (linkTurn state turn).1.registry (turns ++ [turn])
      (linked ++ [(linkTurn state turn).2]) := by
  have hrole : Turn.role (linkTurn state turn).2 = .model := (role_linkTurn ..).trans hr
  obtain ⟨hstate, hparts⟩ := linkTurn_parts state turn
  rw [hr] at hstate hparts
  rw [modelCalls_singleton hrole, hparts] at hu
  have hrecorded := linkModelParts_recorded h.sound hu
  rw [← hstate, ← hparts, ← modelCalls_singleton hrole] at hrecorded
  have hnone : userResponses [turn] = [] :=
    userResponses_singleton_of_ne (by rw [hr]; exact nofun)
  have hnone' : userResponses [(linkTurn state turn).2] = [] :=
    userResponses_singleton_of_ne (by rw [hrole]; exact nofun)
  refine ⟨hrecorded.sound, ?_, fun name => ?_⟩
  · rw [userResponses_append, userResponses_append, hnone, hnone', List.append_nil,
      List.append_nil]
    exact h.settled
  · rw [modelCalls_append, handles_append, ofFunction_append, userResponses_append,
      userResponses_append, hnone, hnone', List.append_nil, List.append_nil, h.balance,
      hrecorded.balance, List.append_assoc]

end Ledger

theorem ledger_linkTurns {ids : IdSource}
    (hs : ∀ turn ∈ turns, Turn.role turn = .user ∨ Turn.role turn = .model)
    (hu : ∀ call ∈ modelCalls (Stage.linked ids turns), Part.usableId? call ≠ none) :
    Ledger (linkTurns { ids } turns).1.registry turns (Stage.linked ids turns) := by
  rw [Stage.linked] at hu ⊢
  induction turns using List.reverseRecOn with
  | nil => exact .initial
  | append_singleton front turn ih =>
    rw [linkTurns_append] at hu ⊢
    rw [modelCalls_append] at hu
    have hfront := ih (fun t ht => hs t (List.mem_append_left _ ht))
      fun call hc => hu call (List.mem_append_left _ hc)
    rcases hs turn (List.mem_append_right _ (.head _)) with hr | hr
    · exact hfront.concat_user hr
    · exact hfront.concat_model hr fun call hc => hu call (List.mem_append_right _ hc)

/-! ### Who names which call -/

/-- A conversation of a user and the model in which the calls can be told apart once they are
linked, and each response that names a call is the only one to name it and names an earlier call to
the same function. -/
structure Traceable (turns linked : List Json) : Prop where
  speaker : ∀ turn ∈ turns, Turn.role turn = .user ∨ Turn.role turn = .model
  identified : ∀ call ∈ modelCalls linked,
    ∃ id ∈ (Members.get? "id" call).bind Json.text?, id ≠ ""
  distinct : ((modelCalls linked).filterMap Part.usableId?).Nodup
  named : ((userResponses turns).filterMap Part.usableId?).Nodup
  earlier : ∀ (k : Nat) (h : k < turns.length), ∀ response ∈ userResponses [turns[k]],
    ∀ handle ∈ handle? response, handle ∈ handles (modelCalls (linked.take k))

namespace Traceable

theorem usable (h : Traceable turns linked) :
    ∀ call ∈ modelCalls linked, Part.usableId? call ≠ none := by
  intro call hc
  obtain ⟨id, hid, hne⟩ := h.identified call hc
  obtain ⟨value, hv, ht⟩ := Option.bind_eq_some_iff.1 hid
  cases value with
  | string text =>
    cases ht
    rw [Part.usableId?_eq_some.2 ⟨hv, Part.isUsable_string hne⟩]
    exact Option.some_ne_none _
  | _ => cases ht

theorem handles_subset (h : Traceable turns linked) :
    handles (userResponses turns) ⊆ handles (modelCalls linked) := by
  intro handle hm
  obtain ⟨response, hr, hn⟩ := List.mem_filterMap.1 hm
  obtain ⟨turn, ht, hr⟩ := mem_userResponses.1 hr
  obtain ⟨k, hk, rfl⟩ := List.mem_iff_getElem.1 ht
  have hmem := h.earlier k hk response hr handle hn
  rw [← List.take_append_drop k linked, modelCalls_append, handles_append]
  exact List.mem_append_left _ hmem

theorem taken_subset {ids : IdSource} (h : Traceable turns (Stage.linked ids turns)) :
    taken (userResponses turns) (userResponses (Stage.linked ids turns)) ⊆
      handles (modelCalls (Stage.linked ids turns)) := by
  intro handle hm
  have hbalance := (ledger_linkTurns h.speaker h.usable).balance handle.name
  have hmem : handle ∈ ofFunction handle.name (handles (modelCalls (Stage.linked ids turns))) := by
    rw [hbalance]
    exact List.mem_append_left _ (List.mem_filter.2 ⟨hm, decide_eq_true rfl⟩)
  exact (List.mem_filter.1 hmem).1

theorem nodup_taken {ids : IdSource} (h : Traceable turns (Stage.linked ids turns)) :
    (taken (userResponses turns) (userResponses (Stage.linked ids turns))).Nodup := by
  have hcalls : (handles (modelCalls (Stage.linked ids turns))).Nodup :=
    List.Nodup.of_map Handle.id (by rw [map_id_handles]; exact h.distinct)
  rw [List.nodup_iff_count_le_one] at hcalls ⊢
  intro handle
  have hbalance := congrArg (List.count handle)
    ((ledger_linkTurns h.speaker h.usable).balance handle.name)
  rw [List.count_append, count_ofFunction, count_ofFunction] at hbalance
  have hone := hcalls handle
  omega

theorem nodup_iff {ids : IdSource} (h : Traceable turns (Stage.linked ids turns)) :
    ((userResponses (Stage.linked ids turns)).filterMap Part.usableId?).Nodup ↔
      (handles (userResponses turns)).Disjoint
        (taken (userResponses turns) (userResponses (Stage.linked ids turns))) := by
  have hperm := handles_perm (ledger_linkTurns h.speaker h.usable).settled
  have hnamed : (handles (userResponses turns)).Nodup :=
    List.Nodup.of_map Handle.id (by rw [map_id_handles]; exact h.named)
  have hids : ((handles (modelCalls (Stage.linked ids turns))).map Handle.id).Nodup := by
    rw [map_id_handles]
    exact h.distinct
  -- Calls with the same identifier are the same call, so handles can be compared as a whole.
  have hinj := List.inj_on_of_nodup_map hids
  have hsub : ∀ handle ∈ handles (userResponses turns) ++
      taken (userResponses turns) (userResponses (Stage.linked ids turns)),
      handle ∈ handles (modelCalls (Stage.linked ids turns)) := fun handle hm =>
    (List.mem_append.1 hm).elim (fun hm => h.handles_subset hm) fun hm => h.taken_subset hm
  rw [← map_id_handles, (hperm.map Handle.id).nodup_iff]
  constructor
  · intro hd
    exact (List.nodup_append'.1 (hd.of_map _)).2.2
  · intro hd
    refine List.Nodup.map_on (fun x hx y hy he => hinj (hsub x hx) (hsub y hy) he) ?_
    exact List.nodup_append'.2 ⟨hnamed, h.nodup_taken, hd⟩

end Traceable

end Dialogue.Conversation
