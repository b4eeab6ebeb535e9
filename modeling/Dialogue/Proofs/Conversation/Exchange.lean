import Dialogue.Proofs.Conversation.Replies
import Dialogue.Proofs.Conversation.Sendable

/-!
Conversations made of rounds: a turn of the model that makes calls, and turns of the user that
answer all of them, in any order and over as many turns as it takes.  Between two rounds no call
waits for a response and no response for a group.
-/

namespace Dialogue

namespace Part

structure IsPlain (part : Json) : Prop where
  call : part.field? "functionCall" = none
  response : part.field? "functionResponse" = none

def Calls (name : String) (part : Json) : Prop :=
  ∃ fields, part.field? "functionCall" = some (.object fields) ∧
    Members.get? "name" fields = some (.string name)

/-- A response of the function with the name, which does not say which call it answers. -/
def Replies (name : String) (part : Json) : Prop :=
  part.field? "functionCall" = none ∧
    ∃ fields, part.field? "functionResponse" = some (.object fields) ∧
      Members.get? "name" fields = some (.string name) ∧ usableId? fields = none

end Part

namespace Conversation

def nameUnder? (key : String) (part : Json) : Option String :=
  match part.field? key with
  | some (.object fields) => (Members.get? "name" fields).bind Json.text?
  | _ => none

def namesUnder (key : String) (parts : List Json) : List String :=
  parts.filterMap (nameUnder? key)

structure IsPlain (turn : Json) : Prop where
  role : Turn.role turn = .user ∨ Turn.role turn = .model
  parts : ∃ parts, Turn.parts? turn = some parts ∧ ∀ part ∈ parts, Part.IsPlain part

/-- A turn with calls, and the turns with the responses to them. -/
structure IsRound (call : Json) (replies : List Json) : Prop where
  role : Turn.role call = .model
  calls : namesUnder "functionCall" (Turn.parts call) ≠ []
  parts : ∀ part ∈ Turn.parts call, Part.IsPlain part ∨ ∃ name, Part.Calls name part
  repliers : ∀ reply ∈ replies, Turn.role reply = .user ∧ Turn.parts reply ≠ [] ∧
    ∀ part ∈ Turn.parts reply, ∃ name, Part.Replies name part
  names : (namesUnder "functionResponse" (replies.flatMap Turn.parts)).Perm
    (namesUnder "functionCall" (Turn.parts call))

inductive Exchange where
  | plain (turn : Json)
  | round (call : Json) (replies : List Json)

namespace Exchange

def turns : Exchange → List Json
  | plain turn => [turn]
  | round call replies => call :: replies

def WellFormed : Exchange → Prop
  | plain turn => IsPlain turn
  | round call replies => IsRound call replies

end Exchange

def Answered (part answered : Json) : Prop :=
  ∃ fields id, part.field? "functionResponse" = some (.object fields) ∧ Part.IsUsable id ∧
    answered = part.putField "functionResponse" (.object (Members.put "id" id fields))

/-- What is sent of a round: the calls, with identifiers, and one turn right behind them with all
responses in the order in which they came.  The responses of each function answer its calls in the
order in which they were made. -/
structure Paired (family : ModelFamily) (call : Json) (replies : List Json)
    (sent group : Json) : Prop where
  called : ∃ parts, List.Forall₂ Identified (Turn.parts call) parts ∧
    sent = signedTurn family (Turn.withParts call parts)
  gathered : ∃ answers, List.Forall₂ Answered (replies.flatMap Turn.parts) answers ∧
    group = groupTurn (answers.map repairResponse)
  paired : ∀ name, idsUnder "functionResponse" name (Turn.parts group) =
    idsUnder "functionCall" name (Turn.parts sent)

inductive Exchange.Sent (family : ModelFamily) : Exchange → List Json → Prop where
  | plain {turn : Json} : Sent family (.plain turn) [signedTurn family turn]
  | round {call sent group : Json} {replies : List Json}
      (h : Paired family call replies sent group) :
      Sent family (.round call replies) [sent, group]

/-! ### Names and identifiers -/

theorem nameUnder?_of_calls {name : String} {part : Json} (h : Part.Calls name part) :
    nameUnder? "functionCall" part = some name := by
  obtain ⟨fields, hc, hn⟩ := h
  rw [nameUnder?, hc]
  dsimp only
  rw [hn]
  rfl

theorem nameUnder?_of_replies {name : String} {part : Json} (h : Part.Replies name part) :
    nameUnder? "functionResponse" part = some name := by
  obtain ⟨-, fields, hr, hn, -⟩ := h
  rw [nameUnder?, hr]
  dsimp only
  rw [hn]
  rfl

theorem nameUnder?_of_isPlain {part : Json} (h : Part.IsPlain part) :
    nameUnder? "functionCall" part = none := by rw [nameUnder?, h.call]

theorem functionName_of_get? {fields : Members} {name : String}
    (h : Members.get? "name" fields = some (.string name)) : functionName fields = name := by
  rw [functionName, h]
  exact Json.plainText_string name

def Carries (key : String) (part carrying : Json) : Prop :=
  ∀ name, (idUnder? key name carrying).isSome = true ↔ nameUnder? key part = some name

theorem carries_of_field? {key called : String} {part carrying : Json} {fields : Members}
    (hn : nameUnder? key part = some called) (hf : carrying.field? key = some (.object fields))
    (hc : functionName fields = called) (hid : Part.usableId? fields ≠ none) :
    Carries key part carrying := by
  intro name
  rw [hn, idUnder?_of_field? hf, hc, Option.some.injEq]
  split
  · next he => simpa [he, Option.isSome_iff_ne_none] using hid
  · next he => simpa using he

theorem Identified.carries {part identified : Json} (h : Identified part identified)
    (hp : Part.IsPlain part ∨ ∃ name, Part.Calls name part) :
    Carries "functionCall" part identified := by
  rcases hp with hp | ⟨called, hp⟩
  · cases h with
    | kept =>
      intro name
      rw [nameUnder?_of_isPlain hp, idUnder?, hp.call]
      simp
    | given hc =>
      rw [hp.call] at hc
      cases hc
  · have hname := nameUnder?_of_calls hp
    obtain ⟨fields, hf, hn⟩ := hp
    cases h with
    | kept hk => exact carries_of_field? hname hf (functionName_of_get? hn) (hk fields hf)
    | given hc _ hid =>
      rw [hf] at hc
      cases hc
      apply carries_of_field? hname (Json.field?_putField_self (Json.isObject_of_field? hf) ..)
      · rw [functionName_put_id, functionName_of_get? hn]
      · rw [Part.usableId?_put (Part.isUsable_string hid)]
        exact Option.some_ne_none _

theorem Answered.carries {part answered : Json} (h : Answered part answered)
    (hp : ∃ name, Part.Replies name part) : Carries "functionResponse" part answered := by
  obtain ⟨called, hp⟩ := hp
  have hname := nameUnder?_of_replies hp
  obtain ⟨-, fields, hf, hn, -⟩ := hp
  obtain ⟨fields', id, hf', hid, rfl⟩ := h
  rw [hf] at hf'
  cases hf'
  apply carries_of_field? hname (Json.field?_putField_self (Json.isObject_of_field? hf) ..)
  · rw [functionName_put_id, functionName_of_get? hn]
  · rw [Part.usableId?_put hid]
    exact Option.some_ne_none _

theorem length_idsUnder {key : String} {parts carrying : List Json}
    (h : List.Forall₂ (Carries key) parts carrying) (name : String) :
    (idsUnder key name carrying).length = (namesUnder key parts).count name := by
  induction h with
  | nil => rfl
  | @cons part other parts others hc _ ih =>
    rw [idsUnder, namesUnder] at ih ⊢
    have hc := hc name
    cases hid : idUnder? key name other with
    | none =>
      rw [List.filterMap_cons_none hid, ih]
      cases hn : nameUnder? key part with
      | none => rw [List.filterMap_cons_none hn]
      | some called =>
        have hne : called ≠ name := fun he => by simp [hid, hn, he] at hc
        rw [List.filterMap_cons_some hn, List.count_cons_of_ne hne]
    | some id =>
      have hn : nameUnder? key part = some name := hc.1 (by rw [hid]; rfl)
      rw [List.filterMap_cons_some hid, List.filterMap_cons_some hn, List.length_cons, ih,
        List.count_cons_self]

theorem Answered.isResponse {part answered : Json} (h : Answered part answered)
    (hp : part.field? "functionCall" = none) : Part.isResponse answered = true := by
  obtain ⟨fields, id, hr, -, rfl⟩ := h
  rw [Part.isResponse, decide_eq_true_eq, Part.kind, Json.field?_putField_of_ne (by decide), hp,
    Json.field?_putField_self (Json.isObject_of_field? hr)]
  rfl

/-! ### Linking a round -/

theorem linkParts_append (role : Role) (state : Linking) (front back : List Json) :
    linkParts role state (front ++ back) =
      ((linkParts role (linkParts role state front).1 back).1,
        (linkParts role state front).2 ++
          (linkParts role (linkParts role state front).1 back).2) := by
  induction front generalizing state with
  | nil => rfl
  | cons part rest ih => rw [List.cons_append, linkParts, ih]; rfl

theorem linkTurns_append (state : Linking) (front back : List Json) :
    linkTurns state (front ++ back) =
      ((linkTurns (linkTurns state front).1 back).1,
        (linkTurns state front).2 ++ (linkTurns (linkTurns state front).1 back).2) := by
  induction front generalizing state with
  | nil => rfl
  | cons turn rest ih => rw [List.cons_append, linkTurns, ih]; rfl

theorem length_linkParts (role : Role) (state : Linking) (parts : List Json) :
    (linkParts role state parts).2.length = parts.length := by
  induction parts generalizing state with
  | nil => rfl
  | cons part rest ih => rw [linkParts, List.length_cons, ih, List.length_cons]

theorem Answered.of_sameButId {part sent : Json} (hr : ∃ name, Part.Replies name part)
    (hs : Part.SameButId part sent) (hi : Identifies "functionResponse" sent) :
    Answered part sent := by
  obtain ⟨called, hc, fields, hf, -, hn⟩ := hr
  cases hs with
  | kept => exact absurd hn (hi fields hf)
  | @given key fields' id hk hf' =>
    rcases hk with rfl | rfl
    · rw [hc] at hf'
      cases hf'
    · rw [hf] at hf'
      cases hf'
      have hsent := Json.field?_putField_self (Json.isObject_of_field? hf) "functionResponse"
        (.object (Members.put "id" id fields))
      obtain ⟨used, hused⟩ := Option.ne_none_iff_exists'.1 (hi _ hsent)
      obtain ⟨hget, hid⟩ := Part.usableId?_eq_some.1 hused
      rw [Members.get?_put_self] at hget
      cases hget
      exact ⟨fields, id, hf, hid, rfl⟩

theorem length_saidIn_replies {parts : List Json}
    (hr : ∀ part ∈ parts, ∃ name, Part.Replies name part) (name : String) :
    (saidIn "functionResponse" name parts).length =
      (namesUnder "functionResponse" parts).count name := by
  induction parts with
  | nil => rfl
  | cons part rest ih =>
    obtain ⟨called, hreplies⟩ := hr part (.head _)
    have hrest := ih fun p hp => hr p (.tail _ hp)
    have hname := nameUnder?_of_replies hreplies
    obtain ⟨-, fields, hf, hn, -⟩ := hreplies
    have hsaid := saidBy_of_field? hf name
    rw [functionName_of_get? hn] at hsaid
    rw [saidIn, namesUnder] at hrest
    rw [saidIn, List.flatMap_cons, hsaid, List.length_append, hrest, namesUnder,
      List.filterMap_cons_some hname]
    by_cases he : called = name
    · rw [if_pos he, he, List.count_cons_self, List.length_singleton, Nat.add_comm]
    · rw [if_neg he, List.count_cons_of_ne he, List.length_nil, Nat.zero_add]

theorem linkReplies_spec (state : Linking) {parts : List Json}
    (hr : ∀ part ∈ parts, ∃ name, Part.Replies name part)
    (hc : ∀ name, (namesUnder "functionResponse" parts).count name ≤
      (state.registry.unanswered name).length)
    (hu : ∀ name, ∀ id ∈ state.registry.unanswered name, Part.IsUsable id) :
    List.Forall₂ Answered parts (linkParts .user state parts).2 ∧
      ∀ name, state.registry.unanswered name =
        idsUnder "functionResponse" name (linkParts .user state parts).2 ++
          (linkParts .user state parts).1.registry.unanswered name := by
  have hanonymous : ∀ part ∈ parts, ∀ fields,
      part.field? "functionResponse" = some (.object fields) → Part.usableId? fields = none := by
    intro part hp fields hf
    obtain ⟨_, -, fields', hf', -, hn⟩ := hr part hp
    rw [hf] at hf'
    cases hf'
    exact hn
  have henough : ∀ name, (saidIn "functionResponse" name parts).length ≤
      (state.registry.unanswered name).length := fun name =>
    (length_saidIn_replies hr name).trans_le (hc name)
  obtain ⟨hidentifies, hbalance⟩ := linkReplyParts_balance hanonymous henough hu
  have hsame := sameButId_linkParts .user state parts
  refine ⟨List.forall₂_iff_zip.2 ⟨hsame.length_eq, fun hm => ?_⟩, hbalance⟩
  obtain ⟨hp, hs⟩ := List.of_mem_zip hm
  exact .of_sameButId (hr _ hp) ((List.forall₂_iff_zip.1 hsame).2 hm) (hidentifies _ hs)

structure HoldsResponses (turn : Json) : Prop where
  isObject : turn.isObject = true
  role : Turn.role turn = .user
  parts : Turn.parts turn ≠ []
  responses : ∀ part ∈ Turn.parts turn, Part.isResponse part = true

theorem exists_parts? {turn : Json} (h : Turn.parts turn ≠ []) :
    Turn.parts? turn = some (Turn.parts turn) := by
  cases hp : Turn.parts? turn with
  | none => exact absurd (by rw [Turn.parts, hp]; rfl) h
  | some parts => rw [Turn.parts_of_parts? hp]

theorem linkTurn_of_parts (state : Linking) {turn : Json} (h : Turn.parts turn ≠ []) :
    linkTurn state turn =
      ((linkParts (Turn.role turn) state (Turn.parts turn)).1,
        Turn.withParts turn (linkParts (Turn.role turn) state (Turn.parts turn)).2) := by
  rw [linkTurn, exists_parts? h]

theorem linkTurns_replies (state : Linking) {replies : List Json}
    (h : ∀ reply ∈ replies, Turn.role reply = .user ∧ Turn.parts reply ≠ []) :
    (linkTurns state replies).1 = (linkParts .user state (replies.flatMap Turn.parts)).1 ∧
      (linkTurns state replies).2.flatMap Turn.parts =
        (linkParts .user state (replies.flatMap Turn.parts)).2 ∧
      ∀ reply ∈ (linkTurns state replies).2,
        reply.isObject = true ∧ Turn.role reply = .user ∧ Turn.parts reply ≠ [] := by
  induction replies generalizing state with
  | nil => exact ⟨rfl, rfl, nofun⟩
  | cons reply rest ih =>
    obtain ⟨hr, hp⟩ := h reply (.head _)
    have ho := Turn.isObject_of_parts_ne_nil hp
    have ht := linkTurn_of_parts state hp
    rw [hr] at ht
    obtain ⟨hs, hparts, hall⟩ := ih (linkTurn state reply).1 fun r hm => h r (.tail _ hm)
    rw [ht] at hs hparts hall
    rw [linkTurns, ht, List.flatMap_cons, linkParts_append]
    dsimp only
    refine ⟨hs, ?_, fun r hm => ?_⟩
    · rw [List.flatMap_cons, hparts, Turn.parts_withParts ho]
    · cases hm with
      | head =>
        refine ⟨by rw [Turn.isObject_withParts, ho], by rw [Turn.role_withParts, hr], ?_⟩
        rw [Turn.parts_withParts ho]
        intro hn
        have hl := length_linkParts .user state (Turn.parts reply)
        rw [hn] at hl
        exact hp (List.length_eq_zero_iff.1 hl.symm)
      | tail _ hm => exact hall r hm

structure Linking.Settled (state : Linking) : Prop extends state.Sound where
  answered : ∀ name, state.registry.unanswered name = []

structure LinkedRound (call : Json) (replies : List Json) (parts : List Json)
    (linked : List Json) : Prop where
  identified : List.Forall₂ Identified (Turn.parts call) parts
  answered : List.Forall₂ Answered (replies.flatMap Turn.parts) (linked.flatMap Turn.parts)
  matching : ∀ name, idsUnder "functionResponse" name (linked.flatMap Turn.parts) =
    idsUnder "functionCall" name parts
  replies : ∀ reply ∈ linked, HoldsResponses reply

theorem IsRound.calls_ne_nil {call : Json} {replies : List Json} (h : IsRound call replies) :
    Turn.parts call ≠ [] := by
  intro hn
  apply h.calls
  rw [hn]
  rfl

theorem IsRound.replies_parts {call : Json} {replies : List Json} (h : IsRound call replies) :
    ∀ part ∈ replies.flatMap Turn.parts, ∃ name, Part.Replies name part := by
  intro part hm
  obtain ⟨reply, hr, hp⟩ := List.mem_flatMap.1 hm
  exact (h.repliers reply hr).2.2 part hp

theorem Linking.Settled.round {state : Linking} (hs : state.Settled) {call : Json}
    {replies : List Json} (h : IsRound call replies) :
    ∃ parts linked, LinkedRound call replies parts linked ∧
      (linkTurns state (call :: replies)).2 = Turn.withParts call parts :: linked ∧
      (linkTurns state (call :: replies)).1.Settled := by
  have ht := linkTurn_of_parts state h.calls_ne_nil
  rw [h.role] at ht
  obtain ⟨hi, hu⟩ := linkModelParts_spec hs.toSound (Turn.parts call)
  have hsound := hs.toSound.of_linkTurns (call :: replies)
  rw [linkTurns, ht] at hsound
  rw [linkTurns, ht]
  generalize linkParts .model state (Turn.parts call) = called at hi hu hsound
  have hopen : ∀ name, called.1.registry.unanswered name =
      idsUnder "functionCall" name called.2 := by
    intro name
    rw [hu, hs.answered, List.nil_append]
  have hcarries : List.Forall₂ (Carries "functionCall") (Turn.parts call) called.2 :=
    ((List.forall₂_and_left _ _).2 ⟨h.parts, hi⟩).imp fun _ _ hc => hc.2.carries hc.1
  have hcount : ∀ name, (namesUnder "functionResponse" (replies.flatMap Turn.parts)).count name =
      (called.1.registry.unanswered name).length := by
    intro name
    rw [hopen, length_idsUnder hcarries, h.names.count_eq]
  obtain ⟨hstate, hparts, hlinked⟩ := linkTurns_replies called.1 fun reply hm =>
    ⟨(h.repliers reply hm).1, (h.repliers reply hm).2.1⟩
  obtain ⟨ha, hids⟩ := linkReplies_spec called.1 h.replies_parts
    (fun name => Nat.le_of_eq (hcount name))
    (fun name id hm => isUsable_of_mem_idsUnder (hopen name ▸ hm))
  rw [← hparts] at ha hids
  rw [← hstate] at hids
  have hanswered : List.Forall₂ (Carries "functionResponse") (replies.flatMap Turn.parts)
      ((linkTurns called.1 replies).2.flatMap Turn.parts) :=
    ((List.forall₂_and_left _ _).2 ⟨h.replies_parts, ha⟩).imp fun _ _ hc => hc.2.carries hc.1
  -- As many responses as calls leave no call over.
  have hleft : ∀ name, (linkTurns called.1 replies).1.registry.unanswered name = [] := by
    intro name
    have hl := congrArg List.length (hids name)
    rw [List.length_append, length_idsUnder hanswered, hcount, Nat.left_eq_add] at hl
    exact List.length_eq_zero_iff.1 hl
  refine ⟨called.2, (linkTurns called.1 replies).2, ⟨hi, ha, fun name => ?_, fun reply hm => ?_⟩,
    rfl, ⟨hsound, hleft⟩⟩
  · rw [← hopen, hids, hleft, List.append_nil]
  · obtain ⟨ho, hr, hp⟩ := hlinked reply hm
    refine ⟨ho, hr, hp, fun part hpart => ?_⟩
    obtain ⟨response, hm', han⟩ :=
      exists_of_mem_right ha (List.mem_flatMap.2 ⟨reply, hm, hpart⟩)
    obtain ⟨name, hreplies⟩ := h.replies_parts response hm'
    exact han.isResponse hreplies.1

end Conversation

end Dialogue
