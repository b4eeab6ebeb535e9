import Dialogue.Proofs.Document.Rename

namespace Dialogue

namespace Members

def without (keys : List String) (ms : Members) : Members := ms.filter (·.1 ∉ keys)

variable {key other : String} {keys : List String}

theorem without_cons (k : String) (v : Json) (rest : Members) :
    without keys ((k, v) :: rest) =
      if k ∈ keys then without keys rest else (k, v) :: without keys rest := by
  by_cases h : k ∈ keys <;> simp [without, h]

theorem get?_without (h : key ∉ keys) (ms : Members) :
    get? key (without keys ms) = get? key ms := by
  induction ms with
  | nil => rfl
  | cons m rest ih =>
    obtain ⟨k, v⟩ := m
    rw [without_cons]
    by_cases hk : k = key
    · subst hk
      simp [h, get?]
    · by_cases hm : k ∈ keys <;> simp [hm, get?, hk, ih]

theorem without_put (h : key ∉ keys) (value : Json) (ms : Members) :
    without keys (put key value ms) = put key value (without keys ms) := by
  induction ms with
  | nil => simp [put, without, h]
  | cons m rest ih =>
    obtain ⟨k, v⟩ := m
    by_cases hk : k = key
    · subst hk
      simp [put, without_cons, h]
    · by_cases hm : k ∈ keys <;> simp [put, without_cons, hm, hk, ih]

theorem without_put_of_mem (h : key ∈ keys) (value : Json) (ms : Members) :
    without keys (put key value ms) = without keys ms := by
  induction ms with
  | nil => simp [put, without, h]
  | cons m rest ih =>
    obtain ⟨k, v⟩ := m
    by_cases hk : k = key
    · subst hk
      simp [put, without_cons, h]
    · simp [put, without_cons, hk, ih]

theorem without_erase_of_mem (h : key ∈ keys) (ms : Members) :
    without keys (erase key ms) = without keys ms := by
  induction ms with
  | nil => rfl
  | cons m rest ih =>
    obtain ⟨k, v⟩ := m
    by_cases hk : k = key
    · subst hk
      simp [erase, without_cons, h]
    · simp [erase, without_cons, hk, ih]

theorem put_comm (hne : key ≠ other) {ms : Members} (h : get? key ms ≠ none) (v w : Json) :
    put key v (put other w ms) = put other w (put key v ms) := by
  induction ms with
  | nil => exact absurd rfl h
  | cons m rest ih =>
    obtain ⟨k, x⟩ := m
    by_cases hk : k = key
    · subst hk
      simp [put, hne]
    · rw [get?_cons, if_neg hk] at h
      by_cases ho : k = other
      · subst ho
        simp [put, hk]
      · simp [put, hk, ho, ih h]

end Members

namespace Json

def without (keys : List String) : Json → Json
  | .object ms => .object (Members.without keys ms)
  | other => other

variable {key : String} {keys : List String}

theorem field?_without (h : key ∉ keys) (node : Json) :
    (node.without keys).field? key = node.field? key := by
  cases node with
  | object ms => exact Members.get?_without h ms
  | _ => rfl

theorem without_putField (h : key ∉ keys) (value node : Json) :
    (node.putField key value).without keys = (node.without keys).putField key value := by
  cases node with
  | object ms => exact congrArg Json.object (Members.without_put h value ms)
  | _ => rfl

theorem without_onField (h : key ∉ keys) (f : Json → Json) (node : Json) :
    (onField key f node).without keys = onField key f (node.without keys) := by
  rw [onField, onField, field?_without h]
  split
  · exact without_putField h ..
  · rfl

theorem without_moveField {old new : String} (ho : old ∈ keys) (hn : new ∈ keys) (node : Json) :
    (moveField old new node).without keys = node.without keys := by
  cases node with
  | object ms =>
    rw [moveField]
    split
    · rw [without, Members.without_put_of_mem hn, Members.without_erase_of_mem ho, without]
    · rfl
  | _ => rfl

theorem putField_comm {key other : String} (hne : key ≠ other) {node old : Json}
    (h : node.field? key = some old) (v w : Json) :
    (node.putField key v).putField other w = (node.putField other w).putField key v := by
  cases node with
  | object ms =>
    have hk : Members.get? key ms ≠ none := by
      rw [field?_object] at h
      rw [h]
      exact Option.some_ne_none old
    exact congrArg Json.object (Members.put_comm hne hk ..).symm
  | _ => rfl

theorem putField_onField_comm {key other : String} (hne : key ≠ other) (f : Json → Json)
    (value node : Json) :
    (onField key f node).putField other value = onField key f (node.putField other value) := by
  rw [onField, onField, field?_putField_of_ne hne]
  cases h : node.field? key with
  | none => rfl
  | some old => exact putField_comm hne h (f old) value

end Json

end Dialogue
