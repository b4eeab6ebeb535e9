import Dialogue.Proofs.Grouping.Shares
import Dialogue.Proofs.Grouping.Sunk

/-!
Which calls the responses in a group answer.  A grouper goes by counts alone, so a group holds the
responses to one turn's calls only if the counts never mistake that turn for another.
-/

namespace Dialogue

namespace Part

def idUnder (key : String) (part : Json) : Option Json :=
  match part.field? key with
  | some (.object fields) => Members.get? "id" fields
  | _ => none

def isWellFormed (part : Json) : Bool :=
  match part.field? "functionResponse" with
  | some (.object fields) => (Members.get? "response" fields).all Json.isObject
  | _ => false

def answered (part : Json) : Option Json := idUnder "functionResponse" part

end Part

namespace Conversation

def callIds (turn : Json) : List (Option Json) :=
  if Turn.role turn = .model then
    ((Turn.parts turn).filter Part.isCall).map (Part.idUnder "functionCall")
  else []

def answersTo (opener : Json) (turns : List Json) : List Json :=
  (turns.flatMap responses).filter (Part.answered · ∈ callIds opener)

def callers (turns : List Json) : List Json := turns.filter (0 < Turn.openedCalls ·)

def openTurns (turns : List Json) : List Json :=
  turns.filter fun turn => (answersTo turn turns).length < Turn.openedCalls turn

/-- A conversation in which every call can be told from the others and is answered once, in a
later turn of the user's. -/
structure EachAnswered (turns : List Json) : Prop where
  objects : ∀ turn ∈ turns, turn.isObject = true
  named : ∀ id ∈ turns.flatMap callIds,
    id.bind Json.text? ≠ none ∧ id.bind Json.text? ≠ some ""
  distinct : (turns.flatMap callIds).Nodup
  wellFormed : ∀ part ∈ turns.flatMap responses, Part.isWellFormed part = true
  repliers : ∀ turn ∈ turns, Turn.role turn ≠ .user → responses turn = []
  matched : ((turns.flatMap responses).map Part.answered).Perm (turns.flatMap callIds)
  later : ∀ k, ∀ h : k < turns.length, ∀ part ∈ responses turns[k],
    Part.answered part ∈ (turns.take k).flatMap callIds

/-- The responses in a turn that comes after `front` all answer one turn, while no other turn is
answered in part.  No other turn that is open makes as few calls as that one has responses by now,
unless it has all of them, and the other makes as many calls or stands before it. -/
structure Fits (front : List Json) (turn opener : Json) : Prop where
  answers : ∀ part ∈ responses turn, Part.answered part ∈ callIds opener
  alone : ∀ other ∈ openTurns front, other ≠ opener → answersTo other front = []
  sizes : ∀ other ∈ openTurns front, other ≠ opener →
    (answersTo opener (front ++ [turn])).length < Turn.openedCalls other ∨
      (answersTo opener (front ++ [turn])).length = Turn.openedCalls opener ∧
        (Turn.openedCalls other = Turn.openedCalls opener ∨
          other ∈ front.takeWhile (· ≠ opener))

instance (front : List Json) (turn opener : Json) : Decidable (Fits front turn opener) :=
  decidable_of_iff (_ ∧ _ ∧ _) ⟨fun h => ⟨h.1, h.2.1, h.2.2⟩, fun h => ⟨h.1, h.2, h.3⟩⟩

/-- Whenever responses arrive, there is one turn that they fit. -/
def Undisturbed (turns : List Json) : Prop :=
  ∀ k, ∀ h : k < turns.length, responses turns[k] ≠ [] →
    ∃ opener ∈ turns.take k, Fits (turns.take k) turns[k] opener

instance (turns : List Json) : Decidable (Undisturbed turns) :=
  inferInstanceAs (Decidable (∀ k, ∀ _ : k < turns.length, _))

/-- The group at the place `j` of the output holds the responses to the opener's calls, and stands
behind it. -/
def Holds (turns output : List Json) (opener : Json) (j : Nat) : Prop :=
  ∃ group k i, output[j]? = some group ∧ Turn.parts group = answersTo opener turns ∧
    turns[k]? = some opener ∧ StandsAt turns output k i ∧ i < j

/-! ### Calls and answers -/

variable {turns front : List Json} {turn opener other : Json}

theorem length_callIds (turn : Json) : (callIds turn).length = Turn.openedCalls turn := by
  rw [callIds, Turn.openedCalls]
  split
  · rw [List.length_map]
    rfl
  · rfl

theorem answersTo_append (opener : Json) (front back : List Json) :
    answersTo opener (front ++ back) = answersTo opener front ++ answersTo opener back := by
  rw [answersTo, List.flatMap_append, List.filter_append, answersTo, answersTo]

theorem answersTo_singleton (opener turn : Json) :
    answersTo opener [turn] = (responses turn).filter (Part.answered · ∈ callIds opener) := by
  rw [answersTo, List.flatMap_singleton]

theorem answersTo_concat_of_none (h : ∀ part ∈ responses turn, Part.answered part ∉ callIds opener)
    (front : List Json) : answersTo opener (front ++ [turn]) = answersTo opener front := by
  rw [answersTo_append, answersTo_singleton, List.filter_eq_nil_iff.2, List.append_nil]
  exact fun part hp => by simpa using h part hp

theorem answersTo_concat_of_all (h : ∀ part ∈ responses turn, Part.answered part ∈ callIds opener)
    (front : List Json) :
    answersTo opener (front ++ [turn]) = answersTo opener front ++ responses turn := by
  rw [answersTo_append, answersTo_singleton, List.filter_eq_self.2]
  exact fun part hp => by simpa using h part hp

theorem mem_openTurns : opener ∈ openTurns turns ↔
    opener ∈ turns ∧ (answersTo opener turns).length < Turn.openedCalls opener := by
  rw [openTurns, List.mem_filter, decide_eq_true_eq]

theorem callers_append (front back : List Json) :
    callers (front ++ back) = callers front ++ callers back := List.filter_append ..

theorem callers_singleton (turn : Json) :
    callers [turn] = if Turn.openedCalls turn = 0 then [] else [turn] := by
  rw [callers, List.filter_singleton]
  cases Turn.openedCalls turn <;> rfl

namespace EachAnswered

theorem turn_at (hp : front ++ [turn] <+: turns) :
    ∃ h : front.length < turns.length, turns[front.length] = turn ∧
      turns.take front.length = front := by
  obtain ⟨back, rfl⟩ := hp
  exact ⟨by simp, by simp, by simp⟩

theorem later_of_prefix (h : EachAnswered turns) (hp : front ++ [turn] <+: turns) :
    ∀ part ∈ responses turn, Part.answered part ∈ front.flatMap callIds := by
  obtain ⟨hlt, hturn, htake⟩ := turn_at hp
  have hl := h.later front.length hlt
  rwa [hturn, htake] at hl

theorem answered_mem (h : EachAnswered turns) (hp : front <+: turns) :
    ∀ part ∈ front.flatMap responses, Part.answered part ∈ front.flatMap callIds := by
  induction front using List.reverseRecOn with
  | nil => nofun
  | append_singleton front turn ih =>
    have hfront := ih ((List.prefix_append ..).trans hp)
    intro part hpart
    rw [List.flatMap_append] at hpart ⊢
    refine List.mem_append_left _ ?_
    rcases List.mem_append.1 hpart with hpart | hpart
    · exact hfront part hpart
    · rw [List.flatMap_singleton] at hpart
      exact h.later_of_prefix hp part hpart

theorem answersTo_new (h : EachAnswered turns) (hp : front ++ [turn] <+: turns) :
    answersTo turn front = [] := by
  have hd := (hp.sublist.flatMap callIds).nodup h.distinct
  rw [List.flatMap_append, List.flatMap_singleton] at hd
  rw [answersTo, List.filter_eq_nil_iff]
  intro part hpart hmem
  have hasked := h.answered_mem ((List.prefix_append ..).trans hp) part hpart
  exact (List.nodup_append.1 hd).2.2 _ hasked _ (of_decide_eq_true hmem) rfl

theorem length_answersTo_le (h : EachAnswered turns) (hp : front <+: turns) (opener : Json) :
    (answersTo opener front).length ≤ Turn.openedCalls opener := by
  have hd : ((turns.flatMap responses).map Part.answered).Nodup := h.matched.nodup_iff.2 h.distinct
  have hsub : ((answersTo opener front).map Part.answered).Sublist
      ((turns.flatMap responses).map Part.answered) :=
    (List.filter_sublist.trans (hp.sublist.flatMap responses)).map _
  have hids : (answersTo opener front).map Part.answered ⊆ callIds opener := by
    intro id hid
    obtain ⟨part, hpart, rfl⟩ := List.mem_map.1 hid
    exact of_decide_eq_true (List.mem_filter.1 hpart).2
  rw [← length_callIds, ← List.length_map (f := Part.answered)]
  exact ((hsub.nodup hd).subperm hids).length_le

theorem answersTo_closed (h : EachAnswered turns) (hp : front ++ [turn] <+: turns)
    (hc : Turn.openedCalls opener ≤ (answersTo opener front).length) :
    answersTo opener (front ++ [turn]) = answersTo opener front := by
  have hle := h.length_answersTo_le hp opener
  rw [answersTo_append, List.length_append] at hle
  have hnone : answersTo opener [turn] = [] := List.eq_nil_of_length_eq_zero (by omega)
  rw [answersTo_append, hnone, List.append_nil]

theorem disjoint (h : EachAnswered turns) (hm : opener ∈ turns) (hm' : other ∈ turns)
    (hne : other ≠ opener) {id : Option Json} (hid : id ∈ callIds opener) :
    id ∉ callIds other := by
  have hd := (List.nodup_flatMap.1 h.distinct).2
  have : Std.Symm (Function.onFun List.Disjoint callIds) := ⟨fun _ _ hd => hd.symm⟩
  exact List.disjoint_left.1 (hd.forall hm hm' hne.symm) hid

theorem nodup_callers (h : EachAnswered turns) (hp : front <+: turns) : (callers front).Nodup := by
  have hd := (List.nodup_flatMap.1 ((hp.sublist.flatMap callIds).nodup h.distinct)).2
  refine (hd.filter _).imp_of_mem fun {turn other} hm _ hdisjoint he => ?_
  rw [← he] at hdisjoint
  have hnil : callIds turn = [] :=
    List.eq_nil_iff_forall_not_mem.2 fun id hid => hdisjoint hid hid
  have hpos := of_decide_eq_true (List.mem_filter.1 hm).2
  rw [← length_callIds, hnil] at hpos
  cases hpos

theorem openedCalls_of_responses (h : EachAnswered turns) (hp : front ++ [turn] <+: turns)
    (hr : responses turn ≠ []) : Turn.openedCalls turn = 0 := by
  have hm : turn ∈ turns := hp.subset (List.mem_append_right _ (.head _))
  have hrole : Turn.role turn = .user := by_contra fun hne => hr (h.repliers turn hm hne)
  rw [Turn.openedCalls, hrole, if_neg (by decide)]

theorem openTurns_plain (h : EachAnswered turns) (hp : front ++ [turn] <+: turns)
    (hr : responses turn = []) :
    openTurns (front ++ [turn]) = openTurns front ++ callers [turn] := by
  have hsame (opener : Json) : answersTo opener (front ++ [turn]) = answersTo opener front :=
    answersTo_concat_of_none (by simp [hr]) front
  rw [openTurns, List.filter_append]
  simp only [hsame]
  rw [← openTurns, List.filter_singleton, h.answersTo_new hp, callers, List.filter_singleton]
  rfl

theorem answersTo_other (h : EachAnswered turns) (hp : front ++ [turn] <+: turns)
    (hf : Fits front turn opener) (hm : opener ∈ front) (hm' : other ∈ front)
    (hne : other ≠ opener) : answersTo other (front ++ [turn]) = answersTo other front :=
  answersTo_concat_of_none (fun part hpart =>
    h.disjoint (hp.subset (List.mem_append_left _ hm)) (hp.subset (List.mem_append_left _ hm')) hne
      (hf.answers part hpart)) front

theorem answersTo_others (h : EachAnswered turns) (hp : front ++ [turn] <+: turns)
    (hf : Fits front turn opener) (hm : opener ∈ front) :
    ∀ other ∈ openTurns front, other ≠ opener → answersTo other (front ++ [turn]) = [] := by
  intro other ho hne
  rw [h.answersTo_other hp hf hm (mem_openTurns.1 ho).1 hne, hf.alone other ho hne]

theorem opener_mem_openTurns (h : EachAnswered turns) (hp : front ++ [turn] <+: turns)
    (hr : responses turn ≠ []) (hf : Fits front turn opener) (hm : opener ∈ front) :
    opener ∈ openTurns front := by
  have hle := h.length_answersTo_le hp opener
  have hpos := List.length_pos_of_ne_nil hr
  rw [answersTo_concat_of_all hf.answers, List.length_append] at hle
  exact mem_openTurns.2 ⟨hm, by omega⟩

theorem nodup_openTurns (h : EachAnswered turns) (hp : front <+: turns) :
    (openTurns front).Nodup := by
  refine List.Sublist.nodup (List.monotone_filter_right front fun turn hlt => ?_)
    (h.nodup_callers hp)
  exact decide_eq_true (Nat.zero_lt_of_lt (of_decide_eq_true hlt))

theorem openTurns_concat (h : EachAnswered turns) (hp : front ++ [turn] <+: turns)
    (hr : responses turn ≠ []) (hf : Fits front turn opener) (hm : opener ∈ front) :
    openTurns (front ++ [turn]) = (openTurns front).filter fun other =>
      other ≠ opener ∨ (answersTo opener (front ++ [turn])).length < Turn.openedCalls opener := by
  have hopen := (mem_openTurns.1 (h.opener_mem_openTurns hp hr hf hm)).2
  have hzero := h.openedCalls_of_responses hp hr
  rw [openTurns, List.filter_append, List.filter_cons_of_neg (by simp [hzero]), List.filter_nil,
    List.append_nil, openTurns, List.filter_filter]
  refine List.filter_congr fun other ho => ?_
  by_cases he : other = opener
  · simp [he, hopen]
  · simp [he, h.answersTo_other hp hf hm ho he]

end EachAnswered

theorem exists_eq_takeWhile_append (h : opener ∈ front) :
    ∃ back, front = front.takeWhile (· ≠ opener) ++ opener :: back := by
  induction front with
  | nil => cases h
  | cons turn rest ih =>
    by_cases he : turn = opener
    · exact ⟨rest, by simp [he]⟩
    · obtain ⟨back, hb⟩ := ih ((List.mem_cons.1 h).resolve_left (Ne.symm he))
      refine ⟨back, ?_⟩
      rw [List.takeWhile_cons_of_pos (by simpa using he), List.cons_append, ← hb]

theorem exists_openTurns_around (hd : (openTurns front).Nodup) (ho : opener ∈ openTurns front) :
    ∃ older newer, openTurns front = older ++ opener :: newer ∧
      (∀ other ∈ older ++ newer, other ∈ openTurns front ∧ other ≠ opener) ∧
      ∀ other ∈ newer, other ∉ front.takeWhile (· ≠ opener) := by
  obtain ⟨hm, hlt⟩ := mem_openTurns.1 ho
  obtain ⟨back, hb⟩ := exists_eq_takeWhile_append hm
  generalize front.takeWhile (· ≠ opener) = before at hb ⊢
  obtain ⟨isOpen, hi⟩ : ∃ isOpen : Json → Bool, openTurns front = front.filter isOpen := ⟨_, rfl⟩
  have hopener : isOpen opener = true := (List.mem_filter.1 (hi ▸ ho)).2
  have hsplit : openTurns front = before.filter isOpen ++ opener :: back.filter isOpen := by
    rw [hi, hb, List.filter_append, List.filter_cons_of_pos hopener]
  rw [hsplit, List.nodup_middle, List.nodup_cons] at hd
  refine ⟨before.filter isOpen, back.filter isOpen, hsplit, fun other hin => ?_, ?_⟩
  · refine ⟨?_, fun he => hd.1 (he ▸ hin)⟩
    rw [hsplit]
    exact List.perm_middle.symm.subset (.tail _ hin)
  · intro other hin hbefore
    have hin' := List.mem_filter.2 ⟨hbefore, (List.mem_filter.1 hin).2⟩
    exact (List.nodup_append.1 hd.2).2.2 other hin' other hin rfl

theorem EachAnswered.split (h : EachAnswered turns) (hp : front ++ [turn] <+: turns)
    (hr : responses turn ≠ []) (hf : Fits front turn opener) (hm : opener ∈ front) :
    ∃ older newer, openTurns front = older ++ opener :: newer ∧
      (∀ other ∈ older ++ newer, other ∈ openTurns front ∧ other ≠ opener) ∧
      (∀ other ∈ newer, other ∉ front.takeWhile (· ≠ opener)) ∧
      openTurns (front ++ [turn]) =
        if (answersTo opener (front ++ [turn])).length < Turn.openedCalls opener then
          older ++ opener :: newer else older ++ newer := by
  have hopen := h.opener_mem_openTurns hp hr hf hm
  have hnodup := h.nodup_openTurns ((List.prefix_append ..).trans hp)
  obtain ⟨older, newer, hsplit, hothers, hnewer⟩ := exists_openTurns_around hnodup hopen
  refine ⟨older, newer, hsplit, hothers, hnewer, ?_⟩
  rw [h.openTurns_concat hp hr hf hm, hsplit]
  split
  · next hlt => exact List.filter_eq_self.2 fun _ _ => decide_eq_true (.inr hlt)
  · next hge =>
    have hkept : ∀ other ∈ older ++ newer, decide (other ≠ opener ∨
        (answersTo opener (front ++ [turn])).length < Turn.openedCalls opener) = true :=
      fun other ho => decide_eq_true (.inl (hothers other ho).2)
    rw [List.filter_append, List.filter_cons_of_neg (by simpa using hge), ← List.filter_append,
      List.filter_eq_self.2 hkept]

/-! ### Where a turn stands -/

theorem kept_pushAll (turns : List Json) :
    (Grouper.pushAll {} turns).output.filter (!isGroup ·) = turns.filterMap leftover? := by
  obtain ⟨_, _, hb, -⟩ := Balanced.initial.pushAll turns
  exact hb.kept

theorem exists_standsAt {output : List Json}
    (hk : output.filter (!isGroup ·) = turns.filterMap leftover?) (hm : opener ∈ turns)
    (hl : leftover? opener = some opener) :
    ∃ k i, turns[k]? = some opener ∧ StandsAt turns output k i := by
  obtain ⟨before, after, rfl⟩ := List.append_of_mem hm
  rw [List.filterMap_append, List.filterMap_cons_some hl, List.filter_eq_append_iff] at hk
  obtain ⟨front, back, rfl, hfront, hback⟩ := hk
  obtain ⟨groups, later, rfl, hgroups, -, -⟩ := List.filter_eq_cons_iff.1 hback
  have hnone : groups.filter (!isGroup ·) = [] := List.filter_eq_nil_iff.2 hgroups
  refine ⟨before.length, (front ++ groups).length, by simp, opener, opener, by simp, hl, ?_, ?_⟩
  · rw [← List.append_assoc]
    simp
  · rw [← List.append_assoc, List.take_left, List.take_left, List.filter_append, hfront, hnone,
      List.append_nil]

theorem repairResponse_of_isWellFormed {part : Json} (h : Part.isWellFormed part = true) :
    repairResponse part = part := by
  rw [Part.isWellFormed] at h
  rw [repairResponse]
  cases hf : part.field? "functionResponse" with
  | none => rfl
  | some value =>
    rw [hf] at h
    cases value with
    | object fields =>
      dsimp only at h ⊢
      cases hr : Members.get? "response" fields with
      | none => rfl
      | some result =>
        rw [hr] at h
        cases result with
        | object members => rfl
        | _ => cases h
    | _ => cases h

theorem EachAnswered.map_repairResponse (h : EachAnswered turns) (hp : front <+: turns)
    (opener : Json) : (answersTo opener front).map repairResponse = answersTo opener front := by
  refine (List.map_congr_left fun part hpart => ?_).trans (List.map_id _)
  exact repairResponse_of_isWellFormed
    (h.wellFormed part ((hp.sublist.flatMap responses).subset (List.mem_of_mem_filter hpart)))

theorem EachAnswered.leftover?_of_plain (h : EachAnswered turns) (hm : turn ∈ turns)
    (hr : responses turn = []) : leftover? turn = some turn := by
  rw [leftover?, h.objects turn hm, isGroup_eq_false_iff.2 hr]
  rfl

theorem EachAnswered.responses_caller (h : EachAnswered turns) (hm : opener ∈ turns)
    (hc : 0 < Turn.openedCalls opener) : responses opener = [] := by
  apply h.repliers opener hm
  rw [Turn.role_of_openedCalls_pos hc]
  exact nofun

theorem isGroup_answersTo (h : answersTo opener turns ≠ []) :
    isGroup (groupTurn (answersTo opener turns)) = true :=
  isGroup_groupTurn h fun _ hp => by
    obtain ⟨_, -, hr⟩ := List.mem_flatMap.1 (List.mem_of_mem_filter hp)
    exact isResponse_of_mem_responses hr

theorem EachAnswered.holds_group (h : EachAnswered turns) (hp : front ++ [turn] <+: turns)
    (hm : opener ∈ front) (hc : 0 < Turn.openedCalls opener) {output : List Json}
    (hk : output.filter (!isGroup ·) = front.filterMap leftover?) (more : List Json) :
    Holds (front ++ [turn])
      (output ++ ([groupTurn (answersTo opener (front ++ [turn]))] ++ more)) opener
      output.length := by
  have hin : opener ∈ turns := hp.subset (List.mem_append_left _ hm)
  obtain ⟨k, i, hat, hstands⟩ :=
    exists_standsAt hk hm (h.leftover?_of_plain hin (h.responses_caller hin hc))
  have hlt : i < output.length := by
    obtain ⟨_, _, _, _, hget, _⟩ := hstands
    exact (List.getElem?_eq_some_iff.1 hget).1
  refine ⟨groupTurn (answersTo opener (front ++ [turn])), k, i, ?_, rfl, ?_,
    hstands.append [turn] _, hlt⟩
  · rw [List.getElem?_append_right (Nat.le_refl _), Nat.sub_self]
    rfl
  · rw [List.getElem?_append_left (List.getElem?_eq_some_iff.1 hat).1, hat]

theorem Holds.append {output : List Json} {j : Nat} (h : Holds front output opener j)
    (hs : answersTo opener (front ++ [turn]) = answersTo opener front) (more : List Json) :
    Holds (front ++ [turn]) (output ++ more) opener j := by
  obtain ⟨group, k, i, hj, hparts, hk, hi, hlt⟩ := h
  refine ⟨group, k, i, ?_, hparts.trans hs.symm, ?_, hi.append [turn] more, hlt⟩
  · rw [List.getElem?_append_left (List.getElem?_eq_some_iff.1 hj).1, hj]
  · rw [List.getElem?_append_left (List.getElem?_eq_some_iff.1 hk).1, hk]

theorem Grouper.push_of_openedCalls (g : Grouper) (ho : turn.isObject = true)
    (hz : Turn.openedCalls turn = 0) :
    (g.push turn).pending = (g.receive turn).pending ∧
      (g.push turn).waiting = (g.receive turn).waiting ∧
      (g.push turn).output = (g.receive turn).output ++ (leftover? turn).toList := by
  rw [push_of_isObject g ho]
  cases hl : leftover? turn with
  | none => exact ⟨rfl, rfl, (List.append_nil _).symm⟩
  | some rest =>
    rw [Option.elim_some, pushPlain, openedCalls_leftover hl, if_pos hz]
    exact ⟨rfl, rfl, rfl⟩

theorem findIdxs_append_leftover (output : List Json) (turn : Json) :
    (output ++ (leftover? turn).toList).findIdxs isGroup = output.findIdxs isGroup := by
  cases hl : leftover? turn with
  | none => rw [Option.toList_none, List.append_nil]
  | some rest =>
    simp [List.findIdxs_append, isGroup_leftover hl]

/-! ### Groups and their openers -/

theorem isGroup_of_responses (h : responses turn ≠ []) : isGroup turn = true := by
  cases hg : isGroup turn with
  | true => rfl
  | false => exact absurd (isGroup_eq_false_iff.1 hg) h

theorem flatMap_around {older newer : List Json} {answers : Json → List Json}
    (h : ∀ other ∈ older ++ newer, answers other = []) :
    (older ++ opener :: newer).flatMap answers = answers opener := by
  have hnone := List.flatMap_eq_nil_iff.2 h
  rw [List.flatMap_append, List.append_eq_nil_iff] at hnone
  rw [List.flatMap_append, List.flatMap_cons, hnone.1, hnone.2, List.nil_append, List.append_nil]

/-- The openers have their groups; the open sizes are those of the turns that are open, and the
responses to those turns wait. -/
structure Attributed (front : List Json) (g : Grouper) (openers : List Json) : Prop where
  pending : Sunk ((openTurns front).map Turn.openedCalls) g.pending
  waiting : g.waiting = (openTurns front).flatMap (answersTo · front)
  divided : (openers ++ openTurns front).Perm (callers front)
  placed : List.Forall₂ (Holds front g.output) openers (g.output.findIdxs isGroup)

namespace Attributed

variable {g : Grouper} {openers : List Json}

theorem initial : Attributed [] {} [] := ⟨.nil, rfl, .nil, .nil⟩

theorem closed (h : Attributed front g openers) (ha : EachAnswered turns) (hp : front <+: turns) :
    ∀ opener ∈ openers, Turn.openedCalls opener ≤ (answersTo opener front).length := by
  intro opener ho
  have hnodup := h.divided.nodup_iff.2 (ha.nodup_callers hp)
  have hm := h.divided.subset (List.mem_append_left _ ho)
  have hclosed : opener ∉ openTurns front := fun hin =>
    (List.nodup_append.1 hnodup).2.2 opener ho opener hin rfl
  exact Nat.le_of_not_lt fun hlt => hclosed (mem_openTurns.2 ⟨List.mem_of_mem_filter hm, hlt⟩)

theorem placed_append (h : Attributed front g openers) (ha : EachAnswered turns)
    (hp : front ++ [turn] <+: turns) (more : List Json) :
    List.Forall₂ (Holds (front ++ [turn]) (g.output ++ more)) openers
      (g.output.findIdxs isGroup) := by
  refine ((List.forall₂_and_left _ _).2 ⟨fun _ => id, h.placed⟩).imp ?_
  rintro opener j ⟨ho, hj⟩
  have hc := h.closed ha ((List.prefix_append ..).trans hp) opener ho
  exact hj.append (ha.answersTo_closed hp hc) more

theorem plain (h : Attributed front g openers) (ha : EachAnswered turns)
    (hp : front ++ [turn] <+: turns) (hr : responses turn = []) :
    Attributed (front ++ [turn]) (g.push turn) openers := by
  have hm : turn ∈ turns := hp.subset (List.mem_append_right _ (.head _))
  have hg := isGroup_eq_false_iff.2 hr
  have hpush : g.push turn = g.pushPlain turn := by
    rw [Grouper.push_of_isObject g (ha.objects turn hm), ha.leftover?_of_plain hm hr,
      Grouper.receive, hg]
    rfl
  have hopen := ha.openTurns_plain hp hr
  have hsame (opener : Json) : answersTo opener (front ++ [turn]) = answersTo opener front :=
    answersTo_concat_of_none (by simp [hr]) front
  rw [hpush]
  refine ⟨?_, ?_, ?_, ?_⟩
  · rw [hopen, List.map_append, callers_singleton, Grouper.pushPlain]
    split
    · rw [List.map_nil, List.append_nil]
      exact h.pending
    · exact h.pending.append [Turn.openedCalls turn]
  · have hnew : (callers [turn]).flatMap (answersTo · front) = [] := by
      refine List.flatMap_eq_nil_iff.2 fun opener ho => ?_
      rw [List.mem_singleton.1 (List.mem_of_mem_filter ho)]
      exact ha.answersTo_new hp
    rw [hopen]
    simp only [hsame]
    rw [List.flatMap_append, hnew, List.append_nil]
    exact h.waiting
  · rw [hopen, callers_append, ← List.append_assoc]
    exact h.divided.append_right _
  · have hidx : (g.pushPlain turn).output.findIdxs isGroup = g.output.findIdxs isGroup := by
      simp [Grouper.pushPlain, List.findIdxs_append, hg]
    rw [hidx]
    exact h.placed_append ha hp [turn]

section

variable (h : Attributed front g openers) (ha : EachAnswered turns)
  (hp : front ++ [turn] <+: turns) (hr : responses turn ≠ []) (hm : opener ∈ front)
  (hf : Fits front turn opener)

include h ha hp hr hm hf

theorem waiting_append : g.waiting ++ responses turn = answersTo opener (front ++ [turn]) := by
  obtain ⟨older, newer, hopen, hothers, -, -⟩ := ha.split hp hr hf hm
  have hsilent : ∀ other ∈ older ++ newer, answersTo other front = [] := fun other ho =>
    hf.alone other (hothers other ho).1 (hothers other ho).2
  rw [h.waiting, hopen, flatMap_around hsilent, answersTo_concat_of_all hf.answers]

theorem partly
    (hlt : (answersTo opener (front ++ [turn])).length < Turn.openedCalls opener) :
    Attributed (front ++ [turn]) (g.push turn) openers := by
  obtain ⟨older, newer, hopen, hothers, -, hthen⟩ := ha.split hp hr hf hm
  rw [if_pos hlt, ← hopen] at hthen
  have hwaiting := h.waiting_append ha hp hr hm hf
  have hsilent : ∀ other ∈ older ++ newer, answersTo other (front ++ [turn]) = [] :=
    fun other ho => ha.answersTo_others hp hf hm other (hothers other ho).1 (hothers other ho).2
  have hzero := ha.openedCalls_of_responses hp hr
  -- There is no open group of which the responses could be taken.
  have hrefused : Grouper.takeNewest? (g.waiting ++ responses turn).length g.pending = none := by
    rw [hwaiting]
    refine Grouper.takeNewest?_of_lt fun n hn => ?_
    obtain ⟨other, ho, rfl⟩ := List.mem_map.1 (h.pending.perm.mem_iff.2 hn)
    by_cases he : other = opener
    · exact he ▸ hlt
    · exact (hf.sizes other ho he).resolve_right fun hc => hlt.ne hc.1
  have hreceive : g.receive turn = { g with waiting := g.waiting ++ responses turn } := by
    rw [Grouper.receive, if_pos (isGroup_of_responses hr), Grouper.settleNewest, hrefused]
  obtain ⟨hpending, hqueue, houtput⟩ := g.push_of_openedCalls
    (ha.objects turn (hp.subset (List.mem_append_right _ (.head _)))) hzero
  rw [hreceive] at hpending hqueue houtput
  refine ⟨?_, ?_, ?_, ?_⟩
  · rw [hpending, hthen]
    exact h.pending
  · rw [hqueue, hwaiting, hthen, hopen, flatMap_around hsilent]
  · rw [hthen, callers_append, callers_singleton, if_pos hzero, List.append_nil]
    exact h.divided
  · rw [houtput, findIdxs_append_leftover]
    exact h.placed_append ha hp _

theorem exists_takeNewest?
    (hle : Turn.openedCalls opener ≤ (answersTo opener (front ++ [turn])).length) :
    ∃ rest, Grouper.takeNewest? (Turn.openedCalls opener) g.pending =
        some (Turn.openedCalls opener, rest) ∧
      Sunk ((openTurns (front ++ [turn])).map Turn.openedCalls) rest := by
  obtain ⟨older, newer, hopen, hothers, hnewer, hthen⟩ := ha.split hp hr hf hm
  rw [if_neg (Nat.not_lt_of_le hle)] at hthen
  -- No newer turn makes fewer calls, so none is taken for the opener but one of its size.
  have hsizes : ∀ n ∈ newer.map Turn.openedCalls, Turn.openedCalls opener ≤ n := by
    intro n hn
    obtain ⟨other, ho, rfl⟩ := List.mem_map.1 hn
    obtain ⟨hin, hne⟩ := hothers other (List.mem_append_right _ ho)
    rcases hf.sizes other hin hne with hlt | ⟨-, heq | hbefore⟩
    · exact hle.trans hlt.le
    · exact heq.ge
    · exact absurd hbefore (hnewer other ho)
  obtain ⟨rest, ht, hs⟩ := Grouper.takeNewest?_exact (older.map Turn.openedCalls) hsizes
  have hsunk := h.pending
  rw [hopen, List.map_append, List.map_cons] at hsunk
  obtain ⟨rest', ht', hs'⟩ := Grouper.takeNewest?_sunk hsunk ht
  refine ⟨rest', ht', ?_⟩
  rw [hthen, List.map_append]
  exact hs.trans hs'

theorem complete (hk : g.output.filter (!isGroup ·) = front.filterMap leftover?)
    (hle : Turn.openedCalls opener ≤ (answersTo opener (front ++ [turn])).length) :
    Attributed (front ++ [turn]) (g.push turn) (openers ++ [opener]) := by
  obtain ⟨older, newer, hopen, hothers, -, hthen⟩ := ha.split hp hr hf hm
  rw [if_neg (Nat.not_lt_of_le hle)] at hthen
  have hwaiting := h.waiting_append ha hp hr hm hf
  have hsilent : ∀ other ∈ older ++ newer, answersTo other (front ++ [turn]) = [] :=
    fun other ho => ha.answersTo_others hp hf hm other (hothers other ho).1 (hothers other ho).2
  have hzero := ha.openedCalls_of_responses hp hr
  obtain ⟨rest, htaken, hsunk⟩ := h.exists_takeNewest? ha hp hr hm hf hle
  have hlength := (ha.length_answersTo_le hp opener).antisymm hle
  have hne : answersTo opener (front ++ [turn]) ≠ [] := by
    rw [← hwaiting]
    exact List.append_ne_nil_of_right_ne_nil _ hr
  have hreceive : (g.receive turn).pending = rest ∧ (g.receive turn).waiting = [] ∧
      (g.receive turn).output = g.output ++ [groupTurn (answersTo opener (front ++ [turn]))] := by
    rw [Grouper.receive, if_pos (isGroup_of_responses hr), Grouper.settleNewest, hwaiting]
    dsimp only
    rw [hlength, htaken]
    dsimp only
    rw [← hlength, Grouper.emit_of_ne_nil (by rwa [List.take_length]), List.take_length,
      List.drop_length, ha.map_repairResponse hp]
    exact ⟨rfl, rfl, rfl⟩
  obtain ⟨hpending, hqueue, houtput⟩ := g.push_of_openedCalls
    (ha.objects turn (hp.subset (List.mem_append_right _ (.head _)))) hzero
  rw [hreceive.1] at hpending
  rw [hreceive.2.1] at hqueue
  rw [hreceive.2.2] at houtput
  refine ⟨?_, ?_, ?_, ?_⟩
  · rw [hpending]
    exact hsunk
  · rw [hqueue, hthen, List.flatMap_eq_nil_iff.2 hsilent]
  · rw [hthen, callers_append, callers_singleton, if_pos hzero, List.append_nil, List.append_assoc,
      List.singleton_append]
    refine .trans (.append_left _ ?_) h.divided
    rw [hopen]
    exact List.perm_middle.symm
  · rw [houtput, findIdxs_append_leftover, List.findIdxs_append, List.append_assoc]
    refine List.rel_append (h.placed_append ha hp _) ?_
    rw [List.findIdxs_singleton, if_pos (isGroup_answersTo hne), Nat.zero_add]
    have hcalls : 0 < Turn.openedCalls opener := hlength ▸ List.length_pos_of_ne_nil hne
    exact .cons (ha.holds_group hp hm hcalls hk _) .nil

end

end Attributed

/-! ### Whole conversations -/

theorem Undisturbed.of_prefix (h : Undisturbed turns) (hp : front ++ [turn] <+: turns)
    (hr : responses turn ≠ []) : ∃ opener ∈ front, Fits front turn opener := by
  obtain ⟨hlt, hturn, htake⟩ := EachAnswered.turn_at hp
  have hfits := h front.length hlt
  rw [hturn, htake] at hfits
  exact hfits hr

theorem exists_attributed (h : EachAnswered turns) (hu : Undisturbed turns) (hp : front <+: turns) :
    ∃ openers, Attributed front (Grouper.pushAll {} front) openers := by
  induction front using List.reverseRecOn with
  | nil => exact ⟨[], .initial⟩
  | append_singleton front turn ih =>
    obtain ⟨openers, hfront⟩ := ih ((List.prefix_append ..).trans hp)
    have hpush : Grouper.pushAll {} (front ++ [turn]) = (Grouper.pushAll {} front).push turn := by
      rw [Grouper.pushAll, List.foldl_append]
      rfl
    rw [hpush]
    by_cases hr : responses turn = []
    · exact ⟨openers, hfront.plain h hp hr⟩
    · obtain ⟨opener, hm, hf⟩ := hu.of_prefix hp hr
      rcases Nat.lt_or_ge (answersTo opener (front ++ [turn])).length (Turn.openedCalls opener) with
        hlt | hge
      · exact ⟨openers, hfront.partly h hp hr hm hf hlt⟩
      · exact ⟨_, hfront.complete h hp hr hm hf (kept_pushAll front) hge⟩

theorem EachAnswered.openTurns_eq_nil (h : EachAnswered turns) : openTurns turns = [] := by
  refine List.filter_eq_nil_iff.2 fun opener hm hlt => ?_
  have hids : callIds opener ⊆ (answersTo opener turns).map Part.answered := by
    intro id hid
    have hin := h.matched.mem_iff.2 (List.mem_flatMap.2 ⟨opener, hm, hid⟩)
    obtain ⟨part, hpart, rfl⟩ := List.mem_map.1 hin
    exact List.mem_map_of_mem (List.mem_filter.2 ⟨hpart, decide_eq_true hid⟩)
  have hle := (((List.nodup_flatMap.1 h.distinct).1 opener hm).subperm hids).length_le
  rw [length_callIds, List.length_map] at hle
  exact Nat.not_lt_of_le hle (of_decide_eq_true hlt)

/-- If whenever responses arrive there is one turn that they fit, then each group holds exactly the
responses to the calls of one turn, and stands behind it. -/
theorem groupTurns_attributed (h : EachAnswered turns) (hu : Undisturbed turns) :
    ∃ openers, openers.Perm (callers turns) ∧
      List.Forall₂ (Holds turns (groupTurns turns)) openers
        ((groupTurns turns).findIdxs isGroup) := by
  obtain ⟨openers, ha⟩ := exists_attributed h hu (List.prefix_refl turns)
  have hopen := h.openTurns_eq_nil
  have hpending : (Grouper.pushAll {} turns).pending = [] := by
    have hperm := ha.pending.perm
    rw [hopen, List.map_nil] at hperm
    exact hperm.symm.eq_nil
  have houtput : groupTurns turns = (Grouper.pushAll {} turns).output := by
    rw [groupTurns, Grouper.finish, Grouper.flush, hpending]
    rfl
  refine ⟨openers, ?_, ?_⟩
  · have hdivided := ha.divided
    rwa [hopen, List.append_nil] at hdivided
  · rw [houtput]
    exact ha.placed

def nestedRounds : List Json :=
  [Turn.calling ["a", "b"], Turn.calling ["c"], Turn.calling ["d"], Turn.replying ["c"],
    Turn.replying ["d"], Turn.replying ["a"], Turn.replying ["b"]]

theorem groupTurns_nestedRounds :
    ∃ openers, openers.Perm (callers nestedRounds) ∧
      List.Forall₂ (Holds nestedRounds (groupTurns nestedRounds)) openers
        ((groupTurns nestedRounds).findIdxs isGroup) := by
  refine groupTurns_attributed ⟨?_, ?_, ?_, ?_, ?_, ?_, ?_⟩ ?_ <;> decide

def overlappingRounds : List Json :=
  [Turn.calling ["a", "b"], Turn.calling ["c"], Turn.replying ["a"], Turn.replying ["b"],
    Turn.replying ["c"]]

theorem misattributed_overlappingRounds :
    EachAnswered overlappingRounds ∧
      ∃ group ∈ groupTurns overlappingRounds, isGroup group = true ∧
        ∀ opener ∈ overlappingRounds,
          ¬ (Turn.parts group).Perm (answersTo opener overlappingRounds) := by
  refine ⟨⟨?_, ?_, ?_, ?_, ?_, ?_, ?_⟩, ?_⟩ <;> decide

end Conversation

end Dialogue
