import Dialogue.Proofs.Grouping.Residue

namespace Dialogue

def Event.isRepair : Event → Bool
  | .repairedResponse | .replacedResponse => true
  | _ => false

def Turn.onlyResponds (turn : Json) : Bool :=
  !(Turn.parts turn).isEmpty && (Turn.parts turn).all Part.isResponse

namespace Conversation

variable {turn : Json} {turns : List Json}

namespace Grouper

def told (g : Grouper) : List Event := g.events.filter (!·.isRepair)

theorem isRepair_of_repairEvent? {part : Json} {event : Event}
    (h : repairEvent? part = some event) : event.isRepair = true := by
  unfold repairEvent? at h
  split at h
  · cases h
  · split at h
    · cases h
    · cases h
    · cases h; rfl
  · cases h; rfl

theorem told_emit (g : Grouper) (needed : Nat) : (g.emit needed).told = g.told := by
  have hrepairs : ((g.waiting.take needed).filterMap repairEvent?).filter (!·.isRepair) = [] := by
    refine List.filter_eq_nil_iff.2 fun event hm => ?_
    obtain ⟨part, -, he⟩ := List.mem_filterMap.1 hm
    rw [isRepair_of_repairEvent? he]
    exact Bool.false_ne_true
  rw [told, emit]
  dsimp only
  split
  · rw [List.filter_append, hrepairs, List.append_nil, told]
  · rw [List.filter_append, hrepairs, List.append_nil, told]

theorem told_settleNewest (g : Grouper) : g.settleNewest.told = g.told := by
  rw [settleNewest]
  split
  · exact told_emit ..
  · rfl

theorem told_receive (g : Grouper) (turn : Json) : (g.receive turn).told = g.told := by
  rw [receive]
  split
  · exact told_settleNewest _
  · rfl

theorem told_push (g : Grouper) (turn : Json) :
    (g.push turn).told = g.told ++ if turn.isObject then [] else [.droppedTurn] := by
  cases ho : turn.isObject with
  | false =>
    rw [push_of_not_isObject g ho, told, List.filter_append]
    rfl
  | true =>
    rw [push_of_isObject g ho, if_pos rfl, List.append_nil, ← told_receive g turn]
    cases leftover? turn <;> rfl

theorem told_pushAll (g : Grouper) (turns : List Json) :
    (g.pushAll turns).told =
      g.told ++ List.replicate (turns.countP (!·.isObject)) .droppedTurn := by
  induction turns generalizing g with
  | nil => exact (List.append_nil _).symm
  | cons turn rest ih =>
    rw [pushAll, List.foldl_cons, ← pushAll, ih, told_push, List.append_assoc]
    congr 1
    cases ho : turn.isObject with
    | false =>
      rw [List.countP_cons_of_pos (by simp [ho]), List.replicate_succ]
      rfl
    | true =>
      rw [List.countP_cons_of_neg (by simp [ho])]
      rfl

theorem told_settleAll (counts : List Nat) (g : Grouper) :
    (counts.foldl settle g).told = g.told := by
  induction counts generalizing g with
  | nil => rfl
  | cons needed rest ih =>
    rw [List.foldl_cons, ih, settle]
    split
    · exact told_emit ..
    · rfl

theorem told_flush (g : Grouper) : g.flush.told = g.told := told_settleAll g.pending _

theorem report_pushAll (turns : List Json) :
    (pushAll {} turns).report.filter (!·.isRepair) =
      List.replicate (turns.countP (!·.isObject)) .droppedTurn ++
        Stage.logPositive (pushAll {} turns).flush.waiting.length .droppedResponses := by
  have htold : (pushAll {} turns).flush.told = _ := told_flush _
  rw [told_pushAll] at htold
  rw [report, List.filter_append, ← told, htold, Stage.logPositive]
  congr 1
  cases (pushAll {} turns).flush.waiting <;> rfl

end Grouper

theorem onlyResponds_iff :
    Turn.onlyResponds turn = true ↔
      Turn.parts turn ≠ [] ∧ ∀ part ∈ Turn.parts turn, Part.kind part = .functionResponse := by
  simp [Turn.onlyResponds, Part.isResponse]

theorem isObject_eq (turn : Json) :
    turn.isObject = ((leftover? turn).isSome || Turn.onlyResponds turn) := by
  have h := residue_leftover turn
  generalize leftover? turn = rest? at h
  cases h with
  | noTurn ho =>
    rw [ho, Turn.onlyResponds, Turn.parts, Turn.parts?_of_not_isObject ho]
    rfl
  | verbatim ho h => exact ho
  | nothing hne h =>
    rw [onlyResponds_iff.2 ⟨hne, h⟩, Turn.isObject_of_parts_ne_nil hne]
    rfl
  | mixed hr hrk ho hok h => exact Turn.isObject_of_parts_ne_nil (List.ne_nil_of_mem hr)

theorem leftover?_of_onlyResponds (h : Turn.onlyResponds turn = true) : leftover? turn = none := by
  obtain ⟨hne, hall⟩ := onlyResponds_iff.1 h
  exact (Residue.nothing hne hall).eq.symm

theorem countP_isObject (turns : List Json) :
    turns.countP Json.isObject =
      (turns.filterMap leftover?).length + turns.countP Turn.onlyResponds := by
  induction turns with
  | nil => rfl
  | cons turn rest ih =>
    rw [List.countP_cons, ih, List.countP_cons, isObject_eq]
    cases hr : Turn.onlyResponds turn with
    | true =>
      rw [List.filterMap_cons_none (leftover?_of_onlyResponds hr), Bool.or_true, if_pos rfl,
        Nat.add_assoc]
    | false =>
      cases hl : leftover? turn with
      | none =>
        rw [List.filterMap_cons_none hl]
        rfl
      | some left =>
        rw [List.filterMap_cons_some hl, List.length_cons]
        simp only [Option.isSome_some, Bool.or_false, if_true, Bool.false_eq_true, if_false]
        omega

structure GroupingTally (turns sent : List Json) (groups dropped : Nat) : Prop where
  counted : groups = sent.countP (Turn.has .functionResponse)
  length : sent.length + turns.countP Turn.onlyResponds = turns.countP Json.isObject + groups
  placed : responsesIn (sent.filter (Turn.has .functionResponse)) + dropped =
    responsesIn (turns.filter Json.isObject)

theorem responsesIn_filter_isObject (turns : List Json) :
    responsesIn (turns.filter Json.isObject) = responsesIn turns := by
  rw [← length_flatMap_responses, ← length_flatMap_responses]
  induction turns with
  | nil => rfl
  | cons turn rest ih =>
    cases ho : turn.isObject with
    | true =>
      rw [List.filter_cons_of_pos ho, List.flatMap_cons, List.flatMap_cons, List.length_append,
        List.length_append, ih]
    | false =>
      rw [List.filter_cons_of_neg (by simp [ho]), ih, List.flatMap_cons,
        responses_of_not_isObject ho, List.nil_append]

theorem groupingTally (turns : List Json) :
    GroupingTally turns (groupTurns turns) (Grouper.pushAll {} turns).flush.groups
      (Grouper.pushAll {} turns).flush.waiting.length := by
  have h : Balanced turns (Grouper.pushAll {} turns) [] := Balanced.initial.pushAll turns
  obtain ⟨left, shares, hb, hp, -⟩ := h.flush
  have hgroups : (Grouper.pushAll {} turns).flush.groups = (groupTurns turns).countP isGroup := by
    rw [List.countP_eq_length_filter]
    exact Balanced.groups_eq ⟨[], shares, hb, hp⟩
  refine ⟨hgroups, ?_, ?_⟩
  · have hlength := List.length_eq_length_filter_add (l := groupTurns turns) isGroup
    rw [filter_groupTurns, ← List.countP_eq_length_filter, ← hgroups] at hlength
    rw [hlength, countP_isObject]
    omega
  · rw [responsesIn_filter_isObject, ← length_flatMap_responses turns,
      ← hb.responsesIn_output_add_waiting]
    congr 1
    exact responsesIn_filter_isGroup _

end Conversation

end Dialogue
