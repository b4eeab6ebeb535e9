import Dialogue.Json.Value

namespace Dialogue

namespace Members

variable {key : String} {front ms : Members}

theorem put_middle (h : key ∉ front.map Prod.fst) (old value : Json) (back : Members) :
    put key value (front ++ (key, old) :: back) = front ++ (key, value) :: back := by
  induction front with
  | nil => exact if_pos rfl
  | cons m rest ih =>
    obtain ⟨k, v⟩ := m
    rw [List.map_cons, List.mem_cons, not_or] at h
    rw [List.cons_append, put, if_neg (Ne.symm h.1), ih h.2, List.cons_append]

theorem exists_middle (h : key ∈ ms.map Prod.fst) :
    ∃ front old back, ms = front ++ (key, old) :: back ∧ key ∉ front.map Prod.fst := by
  induction ms with
  | nil => cases h
  | cons m rest ih =>
    obtain ⟨k, v⟩ := m
    by_cases hk : k = key
    · subst hk
      exact ⟨[], v, rest, rfl, nofun⟩
    · obtain ⟨front, old, back, rfl, hf⟩ := ih ((List.mem_cons.1 h).resolve_left (Ne.symm hk))
      exact ⟨(k, v) :: front, old, back, rfl, fun hm => (List.mem_cons.1 hm).elim (Ne.symm hk) hf⟩

theorem get?_middle (h : key ∉ front.map Prod.fst) (value : Json) (back : Members) :
    get? key (front ++ (key, value) :: back) = some value := by
  induction front with
  | nil => exact if_pos rfl
  | cons m rest ih =>
    obtain ⟨k, v⟩ := m
    rw [List.map_cons, List.mem_cons, not_or] at h
    rw [List.cons_append, get?, if_neg (Ne.symm h.1), ih h.2]

theorem erase_middle (h : key ∉ front.map Prod.fst) (value : Json) (back : Members) :
    erase key (front ++ (key, value) :: back) = front ++ back := by
  induction front with
  | nil => exact if_pos rfl
  | cons m rest ih =>
    obtain ⟨k, v⟩ := m
    rw [List.map_cons, List.mem_cons, not_or] at h
    rw [List.cons_append, erase, if_neg (Ne.symm h.1), ih h.2, List.cons_append]

theorem mem_keys_of_get? {value : Json} (h : get? key ms = some value) :
    key ∈ ms.map Prod.fst := by
  refine Decidable.of_not_not fun hn => ?_
  rw [get?_eq_none_iff.2 hn] at h
  cases h

theorem exists_middle_of_get? {value : Json} (h : get? key ms = some value) :
    ∃ front back, ms = front ++ (key, value) :: back ∧ key ∉ front.map Prod.fst := by
  obtain ⟨front, old, back, rfl, hf⟩ := exists_middle (mem_keys_of_get? h)
  rw [get?_middle hf] at h
  cases h
  exact ⟨front, back, rfl, hf⟩

theorem keys_erase (key : String) (ms : Members) :
    (erase key ms).map Prod.fst = (ms.map Prod.fst).erase key := by
  induction ms with
  | nil => rfl
  | cons m rest ih =>
    obtain ⟨k, v⟩ := m
    by_cases hk : k = key
    · simp [erase, hk]
    · simp [erase, hk, ih]

theorem erase_put_of_not_mem (h : key ∉ ms.map Prod.fst) (value : Json) :
    erase key (put key value ms) = ms := by
  rw [put_of_not_mem h, erase_middle h, List.append_nil]

end Members

namespace Json

variable {key other : String} {value : Json}

theorem field?_putField_of_ne (h : other ≠ key) (node value : Json) :
    (node.putField key value).field? other = node.field? other := by
  cases node with
  | object ms => exact Members.get?_put_of_ne h value ms
  | _ => rfl

theorem field?_putField_self {node : Json} (h : node.isObject = true) (key : String)
    (value : Json) : (node.putField key value).field? key = some value := by
  cases node with
  | object ms => exact Members.get?_put_self key value ms
  | _ => cases h

@[simp] theorem isObject_putField (node : Json) (key : String) (value : Json) :
    (node.putField key value).isObject = node.isObject := by
  cases node <;> rfl

theorem putField_of_field? {node : Json} (h : node.field? key = some value) :
    node.putField key value = node := by
  cases node with
  | object ms => exact congrArg Json.object (Members.put_of_get? h)
  | _ => rfl

theorem field?_of_not_isObject {node : Json} (h : node.isObject = false) (key : String) :
    node.field? key = none := by
  cases node with
  | object ms => cases h
  | _ => rfl

theorem putField_of_not_isObject {node : Json} (h : node.isObject = false) (key : String)
    (value : Json) : node.putField key value = node := by
  cases node with
  | object ms => cases h
  | _ => rfl

@[simp] theorem putField_putField (key : String) (v w node : Json) :
    (node.putField key v).putField key w = node.putField key w := by
  cases node with
  | object ms => exact congrArg Json.object (Members.put_put ..)
  | _ => rfl

def onField (key : String) (f : Json → Json) (node : Json) : Json :=
  match node.field? key with
  | some value => node.putField key (f value)
  | none => node

variable {f : Json → Json} {node : Json}

theorem onField_of_field? (h : node.field? key = some value) :
    onField key f node = node.putField key (f value) := by rw [onField, h]

theorem onField_of_field?_eq_none (h : node.field? key = none) : onField key f node = node := by
  rw [onField, h]

@[simp] theorem isObject_onField (key : String) (f : Json → Json) (node : Json) :
    (onField key f node).isObject = node.isObject := by
  rw [onField]
  split
  · exact isObject_putField ..
  · rfl

theorem field?_onField_self (key : String) (f : Json → Json) (node : Json) :
    (onField key f node).field? key = (node.field? key).map f := by
  cases h : node.field? key with
  | none => rw [onField_of_field?_eq_none h, h, Option.map_none]
  | some value =>
    rw [onField_of_field? h, field?_putField_self (isObject_of_field? h), Option.map_some]

theorem field?_onField_of_ne (h : other ≠ key) (f : Json → Json) (node : Json) :
    (onField key f node).field? other = node.field? other := by
  rw [onField]
  split
  · exact field?_putField_of_ne h ..
  · rfl

theorem onField_onField (key : String) (f g : Json → Json) (node : Json) :
    onField key g (onField key f node) = onField key (g ∘ f) node := by
  cases h : node.field? key with
  | none =>
    rw [onField_of_field?_eq_none h, onField_of_field?_eq_none h, onField_of_field?_eq_none h]
  | some value =>
    have hf : (onField key f node).field? key = some (f value) := by
      rw [field?_onField_self, h, Option.map_some]
    rw [onField_of_field? hf, onField_of_field? h, onField_of_field? h, putField_putField]
    rfl

theorem onField_of_fixed (h : ∀ value, node.field? key = some value → f value = value) :
    onField key f node = node := by
  rw [onField]
  split
  · next value hv => rw [h value hv, putField_of_field? hv]
  · rfl

theorem bind_items?_eq_some {node? : Option Json} {items : List Json} :
    node?.bind items? = some items ↔ node? = some (.array items) := by
  cases node? with
  | none => simp
  | some node => cases node <;> simp [items?]

theorem bind_items?_eq_none {node? : Option Json} :
    node?.bind items? = none ↔ ∀ items, node? ≠ some (.array items) := by
  cases node? with
  | none => simp
  | some node => cases node <;> simp [items?]

/-- The object with the value under the key: in the place of the old one, or behind all members. -/
inductive WithField (key : String) (value : Json) : Json → Json → Prop where
  | inPlace {front back : Members} {old : Json} (h : key ∉ front.map Prod.fst) :
      WithField key value (.object (front ++ (key, old) :: back))
        (.object (front ++ (key, value) :: back))
  | last {ms : Members} (h : key ∉ ms.map Prod.fst) :
      WithField key value (.object ms) (.object (ms ++ [(key, value)]))

theorem WithField.isObject {sent : Json} (h : WithField key value node sent) :
    node.isObject = true := by
  cases h <;> rfl

theorem withField_iff {sent : Json} (ho : node.isObject = true) :
    WithField key value node sent ↔ sent = node.putField key value := by
  constructor
  · intro h
    cases h with
    | inPlace h => rw [putField_object, Members.put_middle h]
    | last h => rw [putField_object, Members.put_of_not_mem h]
  · rintro rfl
    cases node with
    | object ms =>
      rw [putField_object]
      by_cases hk : key ∈ ms.map Prod.fst
      · obtain ⟨front, old, back, rfl, hf⟩ := Members.exists_middle hk
        rw [Members.put_middle hf]
        exact .inPlace hf
      · rw [Members.put_of_not_mem hk]
        exact .last hk
    | _ => cases ho

def KeysDistinct : Json → Prop
  | .object ms => (ms.map Prod.fst).Nodup
  | _ => True

theorem KeysDistinct.putField (h : node.KeysDistinct) (key : String) (value : Json) :
    (node.putField key value).KeysDistinct := by
  cases node with
  | object ms => exact Members.nodup_put h
  | _ => trivial

theorem KeysDistinct.onField (h : node.KeysDistinct) (key : String) (f : Json → Json) :
    (onField key f node).KeysDistinct := by
  rw [Json.onField]
  split
  · exact h.putField ..
  · exact h

theorem Distinct.keysDistinct (h : node.Distinct) : node.KeysDistinct := by
  cases node with
  | object ms => exact h.1
  | _ => trivial

theorem DistinctMembers.of_get? {ms : Members} (h : DistinctMembers ms)
    (hv : Members.get? key ms = some value) : value.Distinct := by
  induction ms with
  | nil => cases hv
  | cons m rest ih =>
    rw [Members.get?] at hv
    split at hv
    · cases hv
      exact h.1
    · exact ih h.2 hv

theorem Distinct.of_field? (h : node.Distinct) (hv : node.field? key = some value) :
    value.Distinct := by
  cases node with
  | object ms => exact h.2.of_get? hv
  | _ => cases hv

theorem DistinctMembers.erase {ms : Members} (h : DistinctMembers ms) (key : String) :
    DistinctMembers (Members.erase key ms) := by
  induction ms with
  | nil => exact h
  | cons m rest ih =>
    rw [Members.erase]
    split
    · exact h.2
    · exact ⟨h.1, ih h.2⟩

theorem DistinctItems.of_mem {xs : List Json} (h : DistinctItems xs) (hv : value ∈ xs) :
    value.Distinct := by
  induction xs with
  | nil => cases hv
  | cons x rest ih =>
    cases hv with
    | head => exact h.1
    | tail _ hv => exact ih h.2 hv

end Json

end Dialogue
