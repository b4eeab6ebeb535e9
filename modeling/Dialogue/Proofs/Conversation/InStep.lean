import Dialogue.Proofs.Conversation.Rounds

namespace Dialogue.Conversation

variable {key : String} {turn : Json} {parts turns linked front : List Json}

def said (key name : String) (turns : List Json) : List Members :=
  saidIn key name (turns.flatMap Turn.parts)

def fromUser (turns : List Json) : List Json := turns.filter (Turn.role · = .user)

/-- The responses of every function carry the identifiers of its calls, in order. -/
def InStep (turns answering : List Json) : Prop :=
  ∀ (name : String) (k : Nat) (response : Members),
    (said "functionResponse" name answering)[k]? = some response →
    ∃ (call : Members) (id : Json), (said "functionCall" name turns)[k]? = some call ∧
      Part.usableId? call = some id ∧ Part.usableId? response = some id

/-- A conversation of a client that hands on results in turns of functions, without saying which
calls they answer, and never more of them than there are calls. -/
structure Relayed (turns : List Json) : Prop where
  speaker : ∀ turn ∈ turns, HasSpeaker turn
  calls : ∀ turn ∈ turns, Turn.role turn ≠ .model → Turn.has .functionCall turn = false
  results : ∀ turn ∈ turns, Turn.role turn ≠ .function → results [turn] = []
  anonymous : ∀ part ∈ Conversation.results turns, ∀ fields,
    part.field? "functionResponse" = some (.object fields) → Part.usableId? fields = none
  ahead : ∀ front, front <+: turns → ∀ name,
    (said "functionResponse" name front).length ≤ (said "functionCall" name front).length

theorem Relayed.of_prefix (h : Relayed turns) (hp : front <+: turns) : Relayed front where
  speaker := fun turn ht => h.speaker turn (hp.subset ht)
  calls := fun turn ht => h.calls turn (hp.subset ht)
  results := fun turn ht => h.results turn (hp.subset ht)
  anonymous := fun part hpart =>
    h.anonymous part (((hp.sublist.flatMap _).filter _).subset hpart)
  ahead := fun other ho => h.ahead other (ho.trans hp)

/-! ### Identifiers -/

theorem said_append (key name : String) (front back : List Json) :
    said key name (front ++ back) = said key name front ++ said key name back := by
  rw [said, saidIn, List.flatMap_append, List.flatMap_append, said, saidIn, said, saidIn]

theorem inStep_of_prefix {answering : List Json}
    (hc : ∀ part ∈ turns.flatMap Turn.parts, Identifies "functionCall" part)
    (hr : ∀ part ∈ answering.flatMap Turn.parts, Identifies "functionResponse" part)
    (hp : ∀ name, idsUnder "functionResponse" name (answering.flatMap Turn.parts) <+:
      idsUnder "functionCall" name (turns.flatMap Turn.parts)) : InStep turns answering := by
  intro name k response hk
  have hresponses := congrArg (·[k]?) (map_usableId?_saidIn hr name)
  have hcalls := congrArg (·[k]?) (map_usableId?_saidIn hc name)
  simp only [List.getElem?_map] at hresponses hcalls
  rw [said] at hk
  rw [hk, Option.map_some] at hresponses
  obtain ⟨id, hid, hresponse⟩ := Option.map_eq_some_iff.1 hresponses.symm
  obtain ⟨later, hl⟩ := hp name
  rw [← hl, List.getElem?_append_left (List.getElem?_eq_some_iff.1 hid).1, hid] at hcalls
  obtain ⟨call, hcall, hused⟩ := Option.map_eq_some_iff.1 hcalls
  exact ⟨call, id, hcall, hused, hresponse.symm⟩

/-! ### The calls and responses so far -/

theorem fromUser_concat (h : Turn.role turn = .user) (turns : List Json) :
    fromUser (turns ++ [turn]) = fromUser turns ++ [turn] := by
  rw [fromUser, List.filter_append, List.filter_cons_of_pos (by simpa using h), List.filter_nil,
    fromUser]

theorem fromUser_concat_of_ne (h : Turn.role turn ≠ .user) (turns : List Json) :
    fromUser (turns ++ [turn]) = fromUser turns := by
  rw [fromUser, List.filter_append, List.filter_cons_of_neg (by simpa using h), List.filter_nil,
    List.append_nil, fromUser]

theorem role_linkTurn (state : Linking) (turn : Json) :
    Turn.role (linkTurn state turn).2 = Turn.role turn := by
  rw [linkTurn]
  split
  · rfl
  · exact Turn.role_withParts ..

/-- Of what is linked so far, the unanswered calls are those behind the answered ones. -/
structure Tally (state : Linking) (linked : List Json) : Prop where
  sound : state.Sound
  calls : ∀ part ∈ linked.flatMap Turn.parts, Identifies "functionCall" part
  responses : ∀ part ∈ (fromUser linked).flatMap Turn.parts, Identifies "functionResponse" part
  balance : ∀ name, idsUnder "functionCall" name (linked.flatMap Turn.parts) =
    idsUnder "functionResponse" name ((fromUser linked).flatMap Turn.parts) ++
      state.registry.unanswered name

namespace Tally

variable {state : Linking}

theorem inStep (h : Tally state linked) : InStep linked (fromUser linked) :=
  inStep_of_prefix h.calls h.responses fun name => ⟨_, (h.balance name).symm⟩

theorem isUsable (h : Tally state linked) {name : String} {id : Json}
    (hid : id ∈ state.registry.unanswered name) : Part.IsUsable id := by
  have hcall : id ∈ idsUnder "functionCall" name (linked.flatMap Turn.parts) := by
    rw [h.balance name]
    exact List.mem_append_right _ hid
  exact isUsable_of_mem_idsUnder hcall

theorem length_unanswered (h : Tally state linked) (name : String) :
    (said "functionCall" name linked).length =
      (said "functionResponse" name (fromUser linked)).length +
        (state.registry.unanswered name).length := by
  have hcalls := congrArg List.length (map_usableId?_saidIn h.calls name)
  have hresponses := congrArg List.length (map_usableId?_saidIn h.responses name)
  rw [List.length_map, List.length_map] at hcalls hresponses
  rw [said, said, hcalls, hresponses, h.balance, List.length_append]

theorem concat_model (h : Tally state linked) (hr : Turn.role turn = .model) :
    Tally (linkTurn state turn).1 (linked ++ [(linkTurn state turn).2]) := by
  have hrole : Turn.role (linkTurn state turn).2 = .model := (role_linkTurn ..).trans hr
  obtain ⟨hstate, hparts⟩ := linkTurn_parts state turn
  rw [hr] at hstate hparts
  obtain ⟨hidentified, hqueued⟩ := linkModelParts_spec h.sound (Turn.parts turn)
  have hfrom := fromUser_concat_of_ne (by rw [hrole]; exact nofun) linked
  refine ⟨h.sound.of_linkTurn turn, fun part hp => ?_, ?_, fun name => ?_⟩
  · rw [List.flatMap_append, List.flatMap_singleton, hparts] at hp
    rcases List.mem_append.1 hp with hp | hp
    · exact h.calls part hp
    · obtain ⟨_, _, hi⟩ := exists_of_mem_right hidentified hp
      intro fields hf
      obtain ⟨id, hid⟩ := hi.isUsable hf
      rw [Part.usableId?_eq_some.2 hid]
      exact Option.some_ne_none id
  · rw [hfrom]
    exact h.responses
  · rw [hfrom, List.flatMap_append, List.flatMap_singleton, idsUnder_append, h.balance, hparts,
      hstate, hqueued, List.append_assoc]

theorem concat_user (h : Tally state linked) (hr : Turn.role turn = .user)
    (hc : Turn.has .functionCall turn = false)
    (ha : ∀ part ∈ Turn.parts turn, ∀ fields,
      part.field? "functionResponse" = some (.object fields) → Part.usableId? fields = none)
    (he : ∀ name, (said "functionResponse" name [turn]).length ≤
      (state.registry.unanswered name).length) :
    Tally (linkTurn state turn).1 (linked ++ [(linkTurn state turn).2]) := by
  have hrole : Turn.role (linkTurn state turn).2 = .user := (role_linkTurn ..).trans hr
  obtain ⟨hstate, hparts⟩ := linkTurn_parts state turn
  rw [hr] at hstate hparts
  have hfrom := fromUser_concat hrole linked
  obtain ⟨hresponses, hanswered⟩ := linkReplyParts_balance ha
    (fun name => by simpa only [said, List.flatMap_singleton] using he name)
    (fun _ _ => h.isUsable)
  -- A turn of the user's makes no calls, and linking adds none.
  have hnone : ∀ part ∈ (linkParts .user state (Turn.parts turn)).2,
      ¬ ∃ fields, part.field? "functionCall" = some (.object fields) := by
    rintro part hp ⟨fields, hf⟩
    obtain ⟨before, hb, hs⟩ := exists_of_mem_right (sameButId_linkParts ..) hp
    exact Turn.has_eq_false_iff.1 hc before hb
      (of_decide_eq_true (Part.isCall_iff.2 (hs.field?_of_sent hf)))
  refine ⟨h.sound.of_linkTurn turn, fun part hp => ?_, fun part hp => ?_, fun name => ?_⟩
  · rw [List.flatMap_append, List.flatMap_singleton, hparts] at hp
    rcases List.mem_append.1 hp with hp | hp
    · exact h.calls part hp
    · exact fun fields hf => absurd ⟨fields, hf⟩ (hnone part hp)
  · rw [hfrom, List.flatMap_append, List.flatMap_singleton, hparts] at hp
    rcases List.mem_append.1 hp with hp | hp
    · exact h.responses part hp
    · exact hresponses part hp
  · rw [hfrom, List.flatMap_append, List.flatMap_append, List.flatMap_singleton, idsUnder_append,
      idsUnder_append, hparts, hstate, h.balance, hanswered, idsUnder_eq_filterMap "functionCall",
      saidIn_eq_nil hnone, List.filterMap_nil, List.append_nil, List.append_assoc]

end Tally

theorem said_of_parts {turn other : Json} (h : Turn.parts turn = Turn.parts other)
    (key name : String) : said key name [turn] = said key name [other] := by
  rw [said, said, List.flatMap_singleton, List.flatMap_singleton, h]

theorem said_of_has (h : Turn.has .functionCall turn = false) (name : String) :
    said "functionCall" name [turn] = [] := by
  rw [said, List.flatMap_singleton]
  refine saidIn_eq_nil (fun part hp hf => ?_) name
  exact Turn.has_eq_false_iff.1 h part hp (of_decide_eq_true (Part.isCall_iff.2 hf))

theorem said_of_results (h : results turns = []) (name : String) :
    said "functionResponse" name turns = [] :=
  saidIn_eq_nil (fun part hp hf =>
    List.filter_eq_nil_iff.1 h part hp (Part.isResult_iff.2 hf)) name

theorem length_said_linked (key name : String) (state : Linking) (turns : List Json) :
    (said key name (linkTurns state (fillRoles none turns)).2).length =
      (said key name turns).length := by
  rw [said, said, length_saidIn (sameButId_linkTurns ..), flatMap_parts_fillRoles]

theorem length_said_fromUser_le (key name : String) (turns : List Json) :
    (said key name (fromUser turns)).length ≤ (said key name turns).length :=
  ((List.filter_sublist.flatMap _).flatMap _).length_le

theorem Relayed.tally {ids : IdSource} (hids : ids.Nonempty) (h : Relayed turns) :
    Tally (linkTurns { ids } (fillRoles none turns)).1
      (linkTurns { ids } (fillRoles none turns)).2 := by
  induction turns using List.reverseRecOn with
  | nil => exact ⟨⟨CallRegistry.sound_initial, hids⟩, nofun, nofun, fun _ => rfl⟩
  | append_singleton front turn ih =>
    have htally := ih (h.of_prefix (List.prefix_append ..))
    have hmem : turn ∈ front ++ [turn] := List.mem_append_right _ (.head _)
    have hrole := role_readAs (h.speaker turn hmem) front
    have hparts := parts_readAs front turn
    rw [fillRoles_concat h.speaker, linkTurns_append]
    by_cases hm : Misread (front ++ [turn]) ∨ Turn.role turn = .model
    · rw [if_pos hm] at hrole
      exact htally.concat_model hrole
    · rw [if_neg hm] at hrole
      have hc := h.calls turn hmem fun he => hm (.inr he)
      refine htally.concat_user hrole (by rwa [Turn.has, hparts]) ?_ fun name => ?_
      · intro part hp fields hf
        rw [hparts] at hp
        refine h.anonymous part (List.mem_filter.2 ⟨?_, Part.isResult_iff.2 ⟨fields, hf⟩⟩) fields hf
        exact List.mem_flatMap.2 ⟨turn, hmem, hp⟩
      · have hahead := h.ahead _ (List.prefix_refl _) name
        have hcalls := length_said_linked "functionCall" name { ids } front
        have hresponses := length_said_linked "functionResponse" name { ids } front
        have hleft := htally.length_unanswered name
        have hheard := length_said_fromUser_le "functionResponse" name
          (linkTurns { ids } (fillRoles none front)).2
        rw [said_append, said_append, List.length_append, List.length_append, said_of_has hc,
          List.length_nil] at hahead
        rw [said_of_parts hparts]
        omega

/-! ### Turns that are read as the model's -/

theorem saidIn_congr {others : List Json}
    (h : List.Forall₂ (fun part other : Json => other.field? key = part.field? key) parts others)
    (name : String) : saidIn key name others = saidIn key name parts := by
  induction h with
  | nil => rfl
  | cons hp _ ih =>
    rw [saidIn, saidIn] at ih
    rw [saidIn, saidIn, List.flatMap_cons, List.flatMap_cons, ih, saidBy, saidBy, hp]

theorem field?_linkModelPart (state : Linking) (part : Json) :
    (linkModelPart state part).2.field? "functionResponse" = part.field? "functionResponse" := by
  rw [linkModelPart]
  split
  · rfl
  · exact Json.field?_putField_of_ne (by decide) ..
  · rfl

theorem said_linkTurn_of_model (state : Linking) (hr : Turn.role turn = .model) (name : String) :
    said "functionResponse" name [(linkTurn state turn).2] =
      said "functionResponse" name [turn] := by
  rw [said, said, List.flatMap_singleton, List.flatMap_singleton, (linkTurn_parts state turn).2, hr]
  apply saidIn_congr
  generalize Turn.parts turn = parts
  induction parts generalizing state with
  | nil => exact .nil
  | cons part rest ih => exact .cons (field?_linkModelPart state part) (ih _)

theorem said_signedTurn (hk : key ≠ signatureKey) (name : String) (family : ModelFamily)
    (turn : Json) : said key name [signedTurn family turn] = said key name [turn] := by
  rw [said, said, List.flatMap_singleton, List.flatMap_singleton, parts_signedTurn]
  apply saidIn_congr
  rw [List.forall₂_map_right_iff, List.forall₂_same]
  exact fun part _ => field?_signedPart_of_ne hk ..

theorem said_signed (hk : key ≠ signatureKey) (name : String) (family : ModelFamily)
    (turns : List Json) : said key name (signed family turns) = said key name turns := by
  induction turns using List.reverseRecOn with
  | nil => rfl
  | append_singleton front turn ih =>
    rw [signed] at ih
    rw [signed, List.map_append, said_append, said_append, ih, List.map_singleton,
      said_signedTurn hk]

theorem fromUser_signed (family : ModelFamily) (turns : List Json) :
    fromUser (signed family turns) = signed family (fromUser turns) := by
  rw [fromUser, signed, List.filter_map, signed, fromUser]
  simp only [Function.comp_def, role_signedTurn]

theorem said_fromUser (h : ∀ turn ∈ turns, Turn.role turn ≠ .user → results [turn] = [])
    (name : String) :
    said "functionResponse" name (fromUser turns) = said "functionResponse" name turns := by
  induction turns using List.reverseRecOn with
  | nil => rfl
  | append_singleton front turn ih =>
    have hfront := ih fun t ht => h t (List.mem_append_left _ ht)
    by_cases hr : Turn.role turn = .user
    · rw [fromUser_concat hr, said_append, said_append, hfront]
    · rw [fromUser_concat_of_ne hr, said_append, hfront,
        said_of_results (h turn (List.mem_append_right _ (.head _)) hr), List.append_nil]

theorem results_linkTurn (h : results [turn] = []) (state : Linking) :
    results [(linkTurn state turn).2] = [] := by
  have hf := results_congr (sameButId_linkTurns state [turn])
  rw [h] at hf
  exact List.forall₂_nil_left_iff.1 hf

theorem results_linked {ids : IdSource} (h : Relayed turns)
    (hm : ∀ front turn, front ++ [turn] <+: turns → Misread (front ++ [turn]) →
      results [turn] = []) :
    ∀ turn ∈ (linkTurns { ids } (fillRoles none turns)).2,
      Turn.role turn ≠ .user → results [turn] = [] := by
  induction turns using List.reverseRecOn with
  | nil => nofun
  | append_singleton front turn ih =>
    have hp := List.prefix_append front [turn]
    have hfront := ih (h.of_prefix hp) fun f t ht => hm f t (ht.trans hp)
    have hmem : turn ∈ front ++ [turn] := List.mem_append_right _ (.head _)
    intro sent hs hr
    rw [fillRoles_concat h.speaker, linkTurns_append] at hs
    rcases List.mem_append.1 hs with hs | hs
    · exact hfront sent hs hr
    · rw [List.mem_singleton.1 hs, role_linkTurn, role_readAs (h.speaker turn hmem)] at hr
      have hnone : results [turn] = [] := by
        by_cases hread : Misread (front ++ [turn])
        · exact hm front turn (List.prefix_refl _) hread
        · refine h.results turn hmem fun hf => hr (if_neg ?_)
          simp [hread, hf]
      rw [List.mem_singleton.1 hs]
      apply results_linkTurn
      rwa [results_singleton, parts_readAs, ← results_singleton]

theorem exists_linked (h : ∀ t ∈ front ++ [turn], HasSpeaker t) (state : Linking)
    (back : List Json) :
    ∃ before, (linkTurns state (fillRoles none (front ++ turn :: back))).2[front.length]? =
      some (linkTurn before (readAs front turn)).2 := by
  refine ⟨(linkTurns state (fillRoles none front)).1, ?_⟩
  rw [List.append_cons, fillRoles_append, fillRoles_concat h, List.append_assoc, linkTurns_append,
    List.getElem?_append_right (by simp)]
  simp [linkTurns]

/-! ### What is sent -/

variable {family : ModelFamily} {ids : IdSource}

theorem delivered_of_ne_claude (hf : family ≠ .claude) (ids : IdSource) (turns : List Json) :
    delivered .gemini family ids turns =
      signed family (linkTurns { ids } (fillRoles none turns)).2 := by
  rw [delivered, grouped, if_neg (by decide), adapted, closed, if_neg hf, Stage.linked]

theorem InStep.signed {answering : List Json} (h : InStep turns answering)
    (family : ModelFamily) :
    InStep (Conversation.signed family turns) (Conversation.signed family answering) := by
  intro name k response hk
  rw [said_signed (by decide)] at hk ⊢
  exact h name k response hk

theorem inStep_fromUser (hids : ids.Nonempty) (hf : family ≠ .claude) (h : Relayed turns) :
    InStep (delivered .gemini family ids turns)
      (fromUser (delivered .gemini family ids turns)) := by
  rw [delivered_of_ne_claude hf, fromUser_signed]
  exact (h.tally hids).inStep.signed family

theorem inStep_delivered (hids : ids.Nonempty) (hf : family ≠ .claude) (h : Relayed turns)
    (hm : ∀ front turn, front ++ [turn] <+: turns → Misread (front ++ [turn]) →
      results [turn] = []) :
    InStep (delivered .gemini family ids turns) (delivered .gemini family ids turns) := by
  have hstep := (h.tally hids).inStep
  rw [delivered_of_ne_claude hf]
  apply InStep.signed
  intro name k response hk
  rw [← said_fromUser (results_linked h hm)] at hk
  exact hstep name k response hk

theorem said_misread (hf : family ≠ .claude) (h : ∀ t ∈ front ++ [turn], HasSpeaker t)
    (hm : Misread (front ++ [turn])) (back : List Json) :
    ∃ sent, (delivered .gemini family ids (front ++ turn :: back))[front.length]? = some sent ∧
      Turn.role sent = .model ∧
      ∀ name, said "functionResponse" name [sent] = said "functionResponse" name [turn] := by
  obtain ⟨before, hb⟩ := exists_linked h { ids } back
  have hrole : Turn.role (readAs front turn) = .model := by
    rw [role_readAs (h turn (List.mem_append_right _ (.head _))), if_pos (.inl hm)]
  refine ⟨signedTurn family (linkTurn before (readAs front turn)).2, ?_, ?_, fun name => ?_⟩
  · rw [delivered_of_ne_claude hf, Conversation.signed, List.getElem?_map, hb, Option.map_some]
  · rw [role_signedTurn, role_linkTurn, hrole]
  · rw [said_signedTurn (by decide), said_linkTurn_of_model before hrole,
      said_of_parts (parts_readAs front turn)]

end Dialogue.Conversation
