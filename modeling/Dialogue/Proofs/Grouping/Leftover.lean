import Dialogue.Conversation.Grouping
import Dialogue.Proofs.Turn

namespace Dialogue.Conversation

def isGroup (turn : Json) : Bool := Turn.has .functionResponse turn

def responses (turn : Json) : List Json := (Turn.parts turn).filter Part.isResponse

def others (turn : Json) : List Json := (Turn.parts turn).filter (!Part.isResponse ·)

def leftover? (turn : Json) : Option Json :=
  if !turn.isObject then none
  else if !isGroup turn then some turn
  else if (others turn).isEmpty then none
  else some (Turn.withParts turn (others turn))

theorem isGroup_eq_false_iff {turn : Json} : isGroup turn = false ↔ responses turn = [] := by
  rw [isGroup, Turn.has_eq_false_iff, responses, List.filter_eq_nil_iff]
  simp [Part.isResponse]

theorem responses_of_not_isObject {turn : Json} (h : turn.isObject = false) :
    responses turn = [] := by
  rw [responses, Turn.parts, Turn.parts?_of_not_isObject h]
  rfl

theorem isResponse_of_mem_responses {turn part : Json} (h : part ∈ responses turn) :
    Part.isResponse part = true := (List.mem_filter.1 h).2

theorem isGroup_leftover {turn rest : Json} (h : leftover? turn = some rest) :
    isGroup rest = false := by
  unfold leftover? at h
  split at h
  · cases h
  · next ho =>
    split at h
    · next hg => cases h; simpa using hg
    · split at h
      · cases h
      · cases h
        have ho' : turn.isObject = true := by simpa using ho
        rw [isGroup, Turn.has_eq_false_iff, Turn.parts_withParts ho']
        intro part hp hk
        simp [others, Part.isResponse, hk] at hp

theorem openedCalls_leftover {turn rest : Json} (h : leftover? turn = some rest) :
    Turn.openedCalls rest = Turn.openedCalls turn := by
  unfold leftover? at h
  split at h
  · cases h
  · next ho =>
    split at h
    · cases h; rfl
    · split at h
      · cases h
      · cases h
        have ho' : turn.isObject = true := by simpa using ho
        exact Turn.openedCalls_withParts ho' fun part hp => by simp [Part.isResponse, hp]

theorem openedCalls_of_leftover_eq_none {turn : Json} (h : leftover? turn = none) :
    Turn.openedCalls turn = 0 := by
  unfold leftover? at h
  split at h
  · next ho =>
    rw [Turn.openedCalls, Turn.role_of_not_isObject (by simpa using ho)]
    rfl
  · split at h
    · cases h
    · split at h
      · next he =>
        have hall : ∀ part ∈ Turn.parts turn, Part.isResponse part = true := by
          simpa [others, List.filter_eq_nil_iff] using he
        rw [Turn.openedCalls, Turn.count, List.filter_eq_nil_iff.2]
        · simp
        · intro part hp hc
          have hr := of_decide_eq_true (hall part hp)
          rw [of_decide_eq_true hc] at hr
          cases hr
      · cases h

@[simp] theorem kind_object_functionResponse (value : Json) :
    Part.kind (.object [("functionResponse", value)]) = .functionResponse := by
  simp [Part.kind, Members.get?]

theorem isResponse_repairResponse {part : Json} (h : Part.isResponse part = true) :
    Part.isResponse (repairResponse part) = true := by
  unfold repairResponse
  split
  · exact h
  · split
    · exact h
    · exact h
    · simp [Part.isResponse]
  · simp [Part.isResponse]

@[simp] theorem parts_groupTurn (parts : List Json) : Turn.parts (groupTurn parts) = parts := rfl

theorem isGroup_groupTurn {parts : List Json} (hne : parts ≠ [])
    (h : ∀ part ∈ parts, Part.isResponse part = true) : isGroup (groupTurn parts) = true := by
  cases parts with
  | nil => exact absurd rfl hne
  | cons part rest =>
    rw [isGroup, Turn.has, parts_groupTurn, List.any_cons]
    rw [show decide (Part.kind part = .functionResponse) = true from h part (.head _)]
    rfl

end Dialogue.Conversation
