import Dialogue.Proofs.Grouping.Balance
import Mathlib

namespace Dialogue.Conversation

namespace Grouper

inductive Operation where
  | push (turn : Json)
  | flush

def Operation.turn? : Operation → Option Json
  | .push turn => some turn
  | .flush => none

def operate (g : Grouper) : Operation → Grouper
  | .push turn => g.push turn
  | .flush => g.flush

def run (operations : List Operation) : Grouper := operations.foldl operate {}

def pushed (operations : List Operation) : List Json := operations.filterMap Operation.turn?

end Grouper

open Grouper (Operation run pushed)

theorem Balanced.operate {turns : List Json} {g : Grouper} {givenUp : List Nat}
    (h : Balanced turns g givenUp) (operation : Operation) :
    ∃ left, Balanced (turns ++ pushed [operation]) (g.operate operation) (givenUp ++ left) := by
  cases operation with
  | push turn => exact ⟨[], by rw [List.append_nil]; exact h.push turn⟩
  | flush =>
    obtain ⟨left, shares, hb, hp, -⟩ := h.flush
    refine ⟨left, [], shares, ?_, hp⟩
    rw [show turns ++ pushed [.flush] = turns from List.append_nil turns]
    exact hb

theorem Balanced.run (operations : List Operation) :
    ∃ givenUp, Balanced (pushed operations) (run operations) givenUp := by
  induction operations using List.reverseRecOn with
  | nil => exact ⟨[], .initial⟩
  | append_singleton operations operation ih =>
    obtain ⟨givenUp, h⟩ := ih
    obtain ⟨left, h'⟩ := h.operate operation
    rw [pushed, List.filterMap_append, Grouper.run, List.foldl_append]
    exact ⟨_, h'⟩

theorem Balanced.pushAll {before : List Json} {g : Grouper} {givenUp : List Nat}
    (h : Balanced before g givenUp) (turns : List Json) :
    Balanced (before ++ turns) (g.pushAll turns) givenUp := by
  induction turns generalizing before g with
  | nil => simpa [Grouper.pushAll] using h
  | cons turn rest ih => simpa [Grouper.pushAll] using ih (h.push turn)

/-- The group at the place `j` of the output answers the calls of the pushed turn `k`. -/
def Answers (pushed output : List Json) (k j : Nat) : Prop :=
  ∃ turn group i, pushed[k]? = some turn ∧ Turn.role turn = .model ∧ output[j]? = some group ∧
    (Turn.parts group).length = Turn.count .functionCall turn ∧ StandsAt pushed output k i ∧ i < j

theorem callsOf_eq {pushed : List Json} {k : Nat} {turn : Json} (h : pushed[k]? = some turn) :
    callsOf pushed k = Turn.openedCalls turn := by rw [callsOf, h]; rfl

def responsesIn (turns : List Json) : Nat := (turns.map (Turn.count .functionResponse)).sum

def callsIn (turns : List Json) : Nat := (turns.map Turn.openedCalls).sum

def callCounts (turns : List Json) : List Nat := (turns.map Turn.openedCalls).filter (0 < ·)

def groupSizes (turns : List Json) : List Nat :=
  (turns.filter isGroup).map (Turn.parts · |>.length)

theorem length_flatMap_responses (turns : List Json) :
    (turns.flatMap responses).length = responsesIn turns := by
  rw [List.length_flatMap]
  rfl

theorem responsesIn_filter_isGroup (turns : List Json) :
    responsesIn (turns.filter isGroup) = responsesIn turns := by
  rw [← length_flatMap_responses, ← length_flatMap_responses]
  induction turns with
  | nil => rfl
  | cons turn rest ih =>
    cases hg : isGroup turn with
    | true => simp [hg, ih]
    | false => simp [hg, ih, isGroup_eq_false_iff.1 hg]

theorem callsIn_eq_sum (turns : List Json) : callsIn turns = (callCounts turns).sum := by
  rw [callsIn, callCounts]
  induction turns.map Turn.openedCalls with
  | nil => rfl
  | cons n rest ih => cases n <;> simp [ih]

namespace Balance

variable {turns arrived : List Json} {g : Grouper} {opened givenUp : List Nat}
  {shares : List Share}

theorem nodup_openers (h : Balance turns arrived g opened givenUp shares) :
    (shares.map Share.opener).Nodup := by
  have hn : (opened ++ shares.map Share.opener ++ givenUp).Nodup :=
    h.openers.nodup_iff.2 List.nodup_findIdxs
  exact (List.nodup_append.1 (List.nodup_append.1 hn).1).2.1

theorem answers (h : Balance turns arrived g opened givenUp shares) :
    List.Forall₂ (Answers turns g.output) (shares.map Share.opener)
      (g.output.findIdxs isGroup) := by
  rw [List.forall₂_map_left_iff]
  refine ((List.forall₂_and_left _ _).2 ⟨fun _ => id, h.placed⟩).imp ?_
  rintro share j ⟨hs, hj, i, hi, hst⟩
  obtain ⟨turn, rest, hk, hst'⟩ := hst
  have hc := callsOf_pos (h.opener_mem hs)
  have hsize := h.sized share hs
  rw [callsOf_eq hk] at hc hsize
  have hr := Turn.role_of_openedCalls_pos hc
  refine ⟨turn, share.turn, i, hk, hr, hj, ?_, ⟨turn, rest, hk, hst'⟩, hi⟩
  rw [Share.turn, parts_groupTurn, List.length_map, hsize, Turn.openedCalls_of_role hr]

theorem parts_groups (h : Balance turns arrived g opened givenUp shares) :
    (g.output.filter isGroup).flatMap Turn.parts =
      (shares.flatMap Share.taken).map repairResponse := by
  rw [h.groups, List.map_flatMap, List.flatMap_map]
  rfl

theorem responsesIn_output (h : Balance turns arrived g opened givenUp shares) :
    responsesIn g.output = (shares.flatMap Share.taken).length := by
  have hr : ∀ share ∈ shares, ∀ part ∈ share.taken, Part.isResponse part = true := by
    intro share hs part hp
    apply h.responses
    rw [← h.arrivals]
    exact List.mem_append_left _ (List.mem_flatMap.2 ⟨share, hs, hp⟩)
  rw [← responsesIn_filter_isGroup, h.groups, responsesIn, List.map_map, List.length_flatMap]
  congr 1
  apply List.map_congr_left
  intro share hs
  rw [Function.comp, Share.turn, Turn.count, parts_groupTurn, List.filter_eq_self.2,
    List.length_map]
  intro part hp
  obtain ⟨response, hm, rfl⟩ := List.mem_map.1 hp
  exact isResponse_repairResponse (hr share hs response hm)

theorem responsesIn_output_add_waiting (h : Balance turns arrived g opened givenUp shares) :
    responsesIn g.output + g.waiting.length = arrived.length := by
  rw [h.responsesIn_output, ← h.arrivals, List.length_append]

theorem groupSizes_output (h : Balance turns arrived g opened givenUp shares) :
    groupSizes g.output = shares.map (·.taken.length) := by
  rw [groupSizes, h.groups, List.map_map]
  apply List.map_congr_left
  intro share _
  simp [Share.turn]

theorem sum_groupSizes_output (h : Balance turns arrived g opened givenUp shares) :
    (groupSizes g.output).sum = responsesIn g.output := by
  rw [h.groupSizes_output, h.responsesIn_output, List.length_flatMap]

theorem callCounts (h : Balance turns arrived g opened givenUp shares) :
    (callCounts turns).Perm
      (opened.map (callsOf turns) ++ groupSizes g.output ++ givenUp.map (callsOf turns)) := by
  have hs : groupSizes g.output = (shares.map Share.opener).map (callsOf turns) := by
    rw [h.groupSizes_output, List.map_map]
    exact List.map_congr_left h.sized
  rw [Conversation.callCounts, ← callTurns_map_callsOf, hs, ← List.map_append, ← List.map_append]
  exact (h.openers.map _).symm

end Balance

theorem Balanced.pending_pos {turns : List Json} {g : Grouper} {givenUp : List Nat}
    (h : Balanced turns g givenUp) : ∀ needed ∈ g.pending, 0 < needed := by
  obtain ⟨opened, shares, hb, hp⟩ := h
  intro needed hn
  rw [hp] at hn
  obtain ⟨k, hk, rfl⟩ := List.mem_map.1 hn
  exact callsOf_pos (hb.opened_mem hk)

theorem Balanced.groups_eq {turns : List Json} {g : Grouper} {givenUp : List Nat}
    (h : Balanced turns g givenUp) : g.groups = (g.output.filter isGroup).length := by
  obtain ⟨opened, shares, hb, -⟩ := h
  rw [hb.counted, hb.groups, List.length_map]

/-- Whatever is pushed and flushed in whatever order, the groups take the responses in the order in
which they came, and each is the one group of a model's turn that stands before it. -/
theorem groups_of_run (operations : List Operation) :
    ∃ (taken : List Json) (openers : List Nat),
      ((run operations).finish.filter isGroup).flatMap Turn.parts = taken.map repairResponse ∧
      taken ++ (run operations).flush.waiting = (pushed operations).flatMap responses ∧
      (run operations).finish.filter (!isGroup ·) = (pushed operations).filterMap leftover? ∧
      openers.Nodup ∧
      List.Forall₂ (Answers (pushed operations) (run operations).finish) openers
        ((run operations).finish.findIdxs isGroup) ∧
      (run operations).flush.groups = ((run operations).finish.filter isGroup).length ∧
      (run operations).groups = ((run operations).output.filter isGroup).length ∧
      ∀ needed ∈ (run operations).pending, 0 < needed := by
  obtain ⟨givenUp, h⟩ := Balanced.run operations
  obtain ⟨left, shares, hb, hp, -⟩ := h.flush
  refine ⟨shares.flatMap Share.taken, shares.map Share.opener, hb.parts_groups, hb.arrivals,
    hb.kept, hb.nodup_openers, hb.answers, ?_, h.groups_eq, h.pending_pos⟩
  exact Balanced.groups_eq ⟨[], shares, hb, hp⟩

def dropped (turns : List Json) : Nat := responsesIn turns - responsesIn (groupTurns turns)

/-- Calls stay without a group only if they are more than the responses that are dropped. -/
theorem groupTurns_without_avoidable_loss (turns : List Json) :
    responsesIn (groupTurns turns) ≤ responsesIn turns ∧
    ∃ unanswered : List Nat,
      (callCounts turns).Perm (groupSizes (groupTurns turns) ++ unanswered) ∧
      (∀ n ∈ unanswered, dropped turns < n) ∧
      (callsIn turns ≤ responsesIn turns →
        unanswered = [] ∧ dropped turns = responsesIn turns - callsIn turns ∧
        ∃ openers, openers.Perm (callTurns turns) ∧
          List.Forall₂ (Answers turns (groupTurns turns)) openers
            ((groupTurns turns).findIdxs isGroup)) := by
  have h : Balanced turns (Grouper.pushAll {} turns) [] := Balanced.initial.pushAll turns
  obtain ⟨left, shares, hb, -, hl⟩ := h.flush
  have ho : groupTurns turns = (Grouper.pushAll {} turns).flush.output := rfl
  have hsum : responsesIn (groupTurns turns) + (Grouper.pushAll {} turns).flush.waiting.length =
      responsesIn turns := by
    rw [ho, hb.responsesIn_output_add_waiting, length_flatMap_responses]
  have hd : dropped turns = (Grouper.pushAll {} turns).flush.waiting.length := by
    rw [dropped]
    omega
  have hperm : (callCounts turns).Perm
      (groupSizes (groupTurns turns) ++ left.map (callsOf turns)) := by
    simpa [ho] using hb.callCounts
  have hunanswered : ∀ n ∈ left.map (callsOf turns), dropped turns < n := by
    intro n hn
    obtain ⟨k, hk, rfl⟩ := List.mem_map.1 hn
    rw [hd]
    exact hl k hk
  refine ⟨by omega, left.map (callsOf turns), hperm, hunanswered, fun hle => ?_⟩
  have hcalls :
      callsIn turns = responsesIn (groupTurns turns) + (left.map (callsOf turns)).sum := by
    rw [callsIn_eq_sum, hperm.sum_nat, List.sum_append, ho, hb.sum_groupSizes_output]
  cases left with
  | nil =>
    refine ⟨rfl, ?_, shares.map Share.opener, by simpa using hb.openers, hb.answers⟩
    simp at hcalls
    omega
  | cons k rest =>
    -- A turn that is given up needs more than is dropped: there were not enough responses.
    have hk := hunanswered (callsOf turns k) (by simp)
    simp only [List.map_cons, List.sum_cons] at hcalls
    omega

end Dialogue.Conversation
