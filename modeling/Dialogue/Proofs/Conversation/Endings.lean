import Dialogue.Proofs.Conversation.InStep

namespace Dialogue

def Turn.kinds (turn : Json) : List PartKind := (parts turn).map Part.kind

namespace Conversation

def Unfinished (turn : Json) : Prop :=
  Turn.role turn = .model ∧ PartKind.functionCall ∉ Turn.kinds turn

instance (turn : Json) : Decidable (Unfinished turn) := inferInstanceAs (Decidable (_ ∧ _))

def Answering (turn : Json) : Prop :=
  Turn.kinds turn ≠ [] ∧ ∀ kind ∈ Turn.kinds turn, kind = .functionResponse

instance (turn : Json) : Decidable (Answering turn) := inferInstanceAs (Decidable (_ ∧ _))

def EndsIn (P : Json → Prop) (turns : List Json) : Prop := ∃ turn ∈ turns.getLast?, P turn

instance (P : Json → Prop) [DecidablePred P] (turns : List Json) : Decidable (EndsIn P turns) :=
  inferInstanceAs (Decidable (∃ turn ∈ turns.getLast?, _))

/-- The last turn is unfinished and says nothing, and the one before it is unfinished too. -/
def EndsSilent (turns : List Json) : Prop :=
  lastUnfinished? turns = some "" ∧ EndsIn Unfinished turns.dropLast

instance (turns : List Json) : Decidable (EndsSilent turns) := inferInstanceAs (Decidable (_ ∧ _))

variable {turns sent : List Json} {turn linked : Json} {P Q : Json → Prop}

theorem endsIn_concat (front : List Json) (turn : Json) :
    EndsIn P (front ++ [turn]) ↔ P turn := by
  simp [EndsIn]

theorem not_endsIn_nil : ¬ EndsIn P [] := by simp [EndsIn]

theorem endsIn_congr {R : Json → Json → Prop} (hR : ∀ x y, R x y → (Q y ↔ P x))
    (h : List.Forall₂ R turns sent) : EndsIn Q sent ↔ EndsIn P turns := by
  induction h with
  | nil => simp [not_endsIn_nil]
  | cons hr hrest ih =>
    cases hrest with
    | nil => simpa [EndsIn] using hR _ _ hr
    | cons => rwa [EndsIn, List.getLast?_cons_cons, EndsIn, List.getLast?_cons_cons]

theorem unfinished_iff_isSome : Unfinished turn ↔ (unfinishedText? turn).isSome := by
  rw [isSome_unfinishedText?, Turn.has_eq_false_iff, Unfinished, Turn.kinds]
  simp

theorem endsIn_askToContinue (turns : List Json) :
    EndsIn Unfinished (askToContinue turns) ↔ EndsSilent turns := by
  rcases List.eq_nil_or_concat turns with rfl | ⟨front, turn, rfl⟩
  · simp [askToContinue, lastUnfinished?, EndsSilent, not_endsIn_nil]
  · rw [List.concat_eq_append, askToContinue, EndsSilent, lastUnfinished?, List.getLast?_concat,
      Option.bind_some, List.dropLast_concat]
    cases hu : unfinishedText? turn with
    | none => simp [endsIn_concat, unfinished_iff_isSome, hu]
    | some text =>
      dsimp only
      rw [continuation]
      by_cases ht : text = ""
      · simp [ht]
      · have hcontinue : ¬ Unfinished (continueTurn text) := fun h => by cases h.1
        rw [if_neg (by simpa using ht), endsIn_concat]
        simp [hcontinue, ht]

theorem isObject_fillRoles {previous : Option Role} (ho : ∀ turn ∈ turns, turn.isObject = true) :
    ∀ turn ∈ fillRoles previous turns, turn.isObject = true := by
  induction turns generalizing previous with
  | nil => nofun
  | cons first rest ih =>
    have hrest := fun previous => @ih previous fun turn ht => ho turn (.tail _ ht)
    have hfirst := ho first (.head _)
    intro turn ht
    rw [fillRoles, hfirst, if_pos rfl] at ht
    split at ht
    · rcases List.mem_cons.1 ht with rfl | ht
      · exact hfirst
      · exact hrest _ turn ht
    · rcases List.mem_cons.1 ht with rfl | ht
      · rw [isObject_withRole, hfirst]
      · exact hrest _ turn ht

theorem isObject_askToContinue (ho : ∀ turn ∈ turns, turn.isObject = true) :
    ∀ turn ∈ askToContinue turns, turn.isObject = true := by
  rw [askToContinue]
  split
  · intro turn ht
    rcases List.mem_append.1 ht with ht | ht
    · exact ho turn (List.dropLast_subset _ ht)
    · rw [continuation] at ht
      split at ht
      · cases ht
      · rw [List.mem_singleton.1 ht]
        rfl
  · exact ho

theorem endsIn_adapted (turns : List Json) :
    EndsIn Unfinished (adapted .claude turns) ↔ EndsSilent (fillRoles none turns) := by
  rw [adapted, closed, if_pos rfl, endsIn_askToContinue]

theorem kinds_linkTurn (state : Linking) (turn : Json) :
    Turn.kinds (linkTurn state turn).2 = Turn.kinds turn := by
  have hmap : ∀ {parts linked : List Json}, List.Forall₂ Part.SameButId parts linked →
      linked.map Part.kind = parts.map Part.kind := by
    intro parts linked h
    induction h with
    | nil => rfl
    | cons hp _ ih => rw [List.map_cons, List.map_cons, hp.kind, ih]
  rw [Turn.kinds, (linkTurn_parts state turn).2]
  exact hmap (sameButId_linkParts ..)

theorem isObject_linkTurn (state : Linking) (turn : Json) :
    (linkTurn state turn).2.isObject = turn.isObject := by
  rw [linkTurn]
  split
  · rfl
  · exact Turn.isObject_withParts ..

structure SameKinds (turn sent : Json) : Prop where
  isObject : sent.isObject = turn.isObject
  role : Turn.role sent = Turn.role turn
  kinds : Turn.kinds sent = Turn.kinds turn

theorem SameKinds.unfinished_iff (h : SameKinds turn linked) :
    Unfinished linked ↔ Unfinished turn := by
  rw [Unfinished, Unfinished, h.role, h.kinds]

theorem SameKinds.answering_iff (h : SameKinds turn linked) :
    Answering linked ↔ Answering turn := by
  rw [Answering, Answering, h.kinds]

theorem count_eq_countP (kind : PartKind) (turn : Json) :
    Turn.count kind turn = (Turn.kinds turn).countP (· = kind) := by
  rw [Turn.kinds, List.countP_map, Turn.count, ← List.countP_eq_length_filter]
  rfl

theorem responsesIn_congr (h : List.Forall₂ SameKinds turns sent) :
    responsesIn sent = responsesIn turns := by
  induction h with
  | nil => rfl
  | cons hs _ ih =>
    simp only [responsesIn, List.map_cons, List.sum_cons] at ih ⊢
    rw [ih, count_eq_countP, hs.kinds, ← count_eq_countP]

theorem sameKinds_linkTurns (state : Linking) (turns : List Json) :
    List.Forall₂ SameKinds turns (linkTurns state turns).2 := by
  induction turns generalizing state with
  | nil => exact .nil
  | cons turn rest ih =>
    exact .cons ⟨isObject_linkTurn .., role_linkTurn .., kinds_linkTurn ..⟩ (ih _)

theorem answering_of_leftover?_eq_none (ho : turn.isObject = true) (h : leftover? turn = none) :
    Answering turn := by
  rw [leftover?, ho, Bool.not_true, if_neg Bool.false_ne_true] at h
  split at h
  · cases h
  · next hg =>
    split at h
    · next he =>
      rw [Bool.not_eq_true', Bool.not_eq_false, isGroup] at hg
      obtain ⟨part, hp, -⟩ := List.any_eq_true.1 hg
      refine ⟨fun hn => ?_, fun kind hk => ?_⟩
      · rw [List.map_eq_nil_iff.1 hn] at hp
        cases hp
      · obtain ⟨part, hp, rfl⟩ := List.mem_map.1 hk
        rw [List.isEmpty_iff, others, List.filter_eq_nil_iff] at he
        simpa [Part.isResponse] using he part hp
    · cases h

theorem unfinished_iff_openedCalls :
    Unfinished turn ↔ Turn.role turn = .model ∧ Turn.openedCalls turn = 0 := by
  rw [Unfinished]
  refine and_congr_right fun hr => ?_
  rw [Turn.openedCalls_of_role hr, Turn.count, List.length_eq_zero_iff, List.filter_eq_nil_iff,
    Turn.kinds]
  simp

theorem exists_leftover_of_last (h : EndsIn Unfinished (groupTurns turns)) :
    ∃ rest ∈ (turns.filterMap leftover?).getLast?, Unfinished rest := by
  obtain ⟨rest, hrest, hu⟩ := h
  obtain ⟨left, shares, hb, -, -⟩ := (Balanced.initial.pushAll turns).flush
  rw [List.nil_append] at hb
  obtain ⟨front, hout⟩ := List.getLast?_eq_some_iff.1 hrest
  have hplain : isGroup rest = false := by
    cases hg : isGroup rest with
    | false => rfl
    | true =>
      -- A group is a function's turn, and not the model's.
      have hm : rest ∈ (Grouper.pushAll {} turns).flush.output.filter isGroup :=
        List.mem_filter.2 ⟨List.mem_of_mem_getLast? hrest, hg⟩
      rw [hb.groups] at hm
      obtain ⟨share, -, rfl⟩ := List.mem_map.1 hm
      cases hu.1
  refine ⟨rest, ?_, hu⟩
  rw [← hb.kept]
  change rest ∈ ((groupTurns turns).filter (!isGroup ·)).getLast?
  rw [hout, List.filter_append, List.filter_cons_of_pos (by rw [hplain]; rfl), List.filter_nil,
    List.getLast?_concat]
  rfl

def Occupied (g : Grouper) : Prop := EndsIn (Turn.role · = .function) g.output ∨ g.waiting ≠ []

namespace Occupied

variable {g : Grouper}

theorem emit (h : Occupied g) (needed : Nat) : Occupied (g.emit needed) := by
  by_cases ht : g.waiting.take needed = []
  · rw [Occupied, Grouper.waiting_emit, Grouper.emit, if_pos (by simpa using ht)]
    refine h.imp_right fun hw => ?_
    have hneeded : needed = 0 := (List.take_eq_nil_iff.1 ht).resolve_right hw
    rw [hneeded]
    exact hw
  · rw [Grouper.emit_of_ne_nil ht]
    exact .inl ((endsIn_concat ..).2 rfl)

theorem settle (h : Occupied g) (needed : Nat) : Occupied (g.settle needed) := by
  rw [Grouper.settle]
  split
  · exact h.emit needed
  · exact h

theorem flush (h : Occupied g) : Occupied g.flush := by
  have hfold : ∀ (counts : List Nat) (g : Grouper), Occupied g →
      Occupied (counts.foldl Grouper.settle g) := by
    intro counts
    induction counts with
    | nil => exact fun _ h => h
    | cons needed rest ih => exact fun g h => ih _ (h.settle needed)
  exact hfold _ _ h

theorem receive (g : Grouper) {turn : Json} (hg : isGroup turn = true) :
    Occupied (g.receive turn) := by
  have hwaiting : g.waiting ++ responses turn ≠ [] := by
    intro hn
    rw [← Bool.not_eq_false, isGroup_eq_false_iff] at hg
    exact hg (List.append_eq_nil_iff.1 hn).2
  have h : Occupied { g with waiting := g.waiting ++ responses turn } := .inr hwaiting
  rw [Grouper.receive, if_pos hg, Grouper.settleNewest]
  split
  · next needed others _ =>
    have h' : Occupied { g with waiting := g.waiting ++ responses turn, pending := others } := h
    exact h'.emit needed
  · exact h

end Occupied

theorem dropped_pos_of_answering {front : List Json} (ho : turn.isObject = true)
    (hl : leftover? turn = none) (h : EndsIn Unfinished (groupTurns (front ++ [turn]))) :
    0 < dropped (front ++ [turn]) := by
  have hg : isGroup turn = true := by
    rw [leftover?, ho, Bool.not_true, if_neg Bool.false_ne_true] at hl
    split at hl
    · cases hl
    · next hg => simpa using hg
  have hpush : Grouper.pushAll {} (front ++ [turn]) = (Grouper.pushAll {} front).receive turn := by
    rw [Grouper.pushAll_concat, Grouper.push_of_isObject _ ho, hl]
    rfl
  have hoccupied : Occupied (Grouper.pushAll {} (front ++ [turn])).flush := by
    rw [hpush]
    exact (Occupied.receive _ hg).flush
  have hwaiting : (Grouper.pushAll {} (front ++ [turn])).flush.waiting ≠ [] := by
    -- If a group stood last, that turn would be a function's and not the model's.
    refine hoccupied.resolve_left fun hgroup => ?_
    obtain ⟨last, hlast, hrole⟩ := hgroup
    obtain ⟨last', hlast', hu⟩ := h
    rw [Option.mem_def] at hlast hlast'
    rw [groupTurns, Grouper.finish, hlast] at hlast'
    cases hlast'
    rw [hu.1] at hrole
    cases hrole
  obtain ⟨left, shares, hb, -, -⟩ := (Balanced.initial.pushAll (front ++ [turn])).flush
  have hsum := hb.responsesIn_output_add_waiting
  rw [List.nil_append, length_flatMap_responses] at hsum
  have hpos := List.length_pos_iff.2 hwaiting
  rw [dropped, groupTurns, Grouper.finish]
  omega

theorem endsIn_groupTurns (ho : ∀ turn ∈ turns, turn.isObject = true)
    (h : EndsIn Unfinished (groupTurns turns)) :
    EndsIn Unfinished turns ∨ EndsIn Answering turns ∧ 0 < dropped turns := by
  obtain ⟨rest, hrest, hu⟩ := exists_leftover_of_last h
  rcases List.eq_nil_or_concat turns with rfl | ⟨front, turn, rfl⟩
  · cases hrest
  · rw [List.concat_eq_append] at ho h hrest ⊢
    rw [endsIn_concat, endsIn_concat]
    have hturn := ho turn (by simp)
    cases hl : leftover? turn with
    | none =>
      exact .inr ⟨answering_of_leftover?_eq_none hturn hl, dropped_pos_of_answering hturn hl h⟩
    | some kept =>
      rw [List.filterMap_append, List.filterMap_cons_some hl, List.filterMap_nil,
        List.getLast?_concat, Option.mem_some_iff] at hrest
      rw [← hrest, unfinished_iff_openedCalls, (leftover?_eq_some hl).2.2.1,
        openedCalls_leftover hl, ← unfinished_iff_openedCalls] at hu
      exact .inl hu

theorem delivered_claude (target : Target) (ids : IdSource) (turns : List Json) :
    delivered target .claude ids turns =
      grouped target (Stage.linked ids (adapted .claude turns)) :=
  congrArg (grouped target) (List.map_id _)

theorem endsIn_delivered_gemini (ids : IdSource) (turns : List Json) :
    EndsIn Unfinished (delivered .gemini .claude ids turns) ↔
      EndsSilent (fillRoles none turns) := by
  rw [delivered_claude, grouped, if_neg (by decide), Stage.linked,
    endsIn_congr (fun _ _ h => h.unfinished_iff) (sameKinds_linkTurns ..), endsIn_adapted]

theorem endsIn_delivered_antigravity (ids : IdSource) (ho : ∀ turn ∈ turns, turn.isObject = true)
    (h : EndsIn Unfinished (delivered .antigravity .claude ids turns)) :
    EndsSilent (fillRoles none turns) ∨ EndsIn Answering (adapted .claude turns) ∧
      responsesIn (delivered .antigravity .claude ids turns) <
        responsesIn (adapted .claude turns) := by
  have hsame := sameKinds_linkTurns { ids } (adapted .claude turns)
  have hlinked : ∀ turn ∈ Stage.linked ids (adapted .claude turns), turn.isObject = true := by
    intro turn ht
    obtain ⟨before, hb, hs⟩ := exists_of_mem_right hsame ht
    rw [hs.isObject]
    rw [adapted, closed, if_pos rfl] at hb
    exact isObject_askToContinue (isObject_fillRoles ho) before hb
  rw [delivered_claude, grouped, if_pos (by decide)] at h ⊢
  rw [← endsIn_adapted, ← endsIn_congr (fun _ _ h => h.unfinished_iff) hsame,
    ← endsIn_congr (fun _ _ h => h.answering_iff) hsame, ← responsesIn_congr hsame]
  refine (endsIn_groupTurns hlinked h).imp_right fun hd => ⟨hd.1, ?_⟩
  exact Nat.lt_of_sub_pos hd.2

end Conversation

end Dialogue
