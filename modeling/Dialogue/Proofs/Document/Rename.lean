import Dialogue.Proofs.Document.Modify
import Dialogue.Proofs.Json.Fields

namespace Dialogue.Json

open Dialogue.Path (index? appendSegment)

variable {node child : Json} {segment : String}

def moveField (old new : String) : Json → Json
  | .object ms =>
    match Members.get? old ms with
    | some value => .object (Members.put new value (Members.erase old ms))
    | none => .object ms
  | other => other

theorem erase_of_get?_eq_none {key : String} {ms : Members} (h : Members.get? key ms = none) :
    Members.erase key ms = ms := by
  induction ms with
  | nil => rfl
  | cons m rest ih =>
    obtain ⟨k, v⟩ := m
    rw [Members.get?] at h
    split at h
    · cases h
    · next hk => rw [Members.erase, if_neg hk, ih h]

theorem remove_append (node : Json) (p : Path) (last : String) :
    remove node (p ++ [last]) =
      ((descend? node p).bind fun n => (takeChild n last).1,
        modify (fun n => (takeChild n last).2) node p) := by
  induction p generalizing node with
  | nil => rfl
  | cons segment rest ih =>
    obtain ⟨next, tail, ht⟩ := List.exists_cons_of_ne_nil
      (List.append_ne_nil_of_right_ne_nil rest (List.cons_ne_nil last []))
    rw [List.cons_append, ht, remove, ← ht]
    cases hc : child? node segment with
    | none => rw [descend?_cons_none hc, modify_cons_none hc]; rfl
    | some child =>
      dsimp only
      rw [descend?_cons hc, modify_cons hc, ih]

theorem slot?_of_child? (h : child? node segment = some child) :
    slot? node segment = some ⟨child, putChild node segment⟩ := by
  cases node with
  | object ms =>
    have hg : Members.get? segment ms = some child := h
    rw [slot?, hg]
    rfl
  | array xs =>
    cases hi : index? segment with
    | none => simp [child?, hi] at h
    | some i =>
      have hx : xs[i]? = some child := by simpa [child?, hi] using h
      have hs : segment ≠ appendSegment := by
        rintro rfl
        cases hi
      rw [slot?, if_neg hs, hi]
      simp [hx]
      funext v
      simp [putChild, hi]
  | _ => cases h

theorem write_append {p : Path} {parent parent' : Json} {last : String} (value : Json)
    (hp : descend? node p = some parent) (ha : assign? parent last value = some parent') :
    write value node (p ++ [last]) = (modify (fun _ => parent') node p, none) := by
  induction p generalizing node with
  | nil =>
    cases hp
    rw [List.nil_append, write, ha]
    rfl
  | cons segment rest ih =>
    obtain ⟨next, tail, ht⟩ := List.exists_cons_of_ne_nil
      (List.append_ne_nil_of_right_ne_nil rest (List.cons_ne_nil last []))
    cases hc : child? node segment with
    | none => rw [descend?_cons_none hc] at hp; cases hp
    | some child =>
      rw [descend?_cons hc] at hp
      rw [List.cons_append, ht, write, ← ht, slot?_of_child? hc]
      dsimp only
      rw [ih hp, modify_cons hc]

theorem valid_append_singleton {p : Path} {last : String} (hp : ∀ segment ∈ p, segment ≠ "")
    (hl : last ≠ "") : Path.valid (p ++ [last]) = true := by
  simp only [Path.valid, Bool.and_eq_true, Bool.not_eq_true', List.all_eq_true,
    decide_eq_true_eq]
  refine ⟨by cases p <;> rfl, fun segment hs => ?_⟩
  rcases List.mem_append.1 hs with hs | hs
  · exact hp segment hs
  · rw [List.mem_singleton.1 hs]
    exact hl

theorem rename_sibling (doc : Json) {p : Path} {old new : String}
    (hp : ∀ segment ∈ p, segment ≠ "") (hold : old ≠ "") (hnew : new ≠ "")
    (hi : index? old = none) :
    doc.rename (p ++ [old]) (p ++ [new]) =
      (modify (moveField old new) doc p, .ok ((descend? doc p).bind (child? · old)).isSome) := by
  rw [rename, delete, if_pos (valid_append_singleton hp hold), remove_append]
  cases hd : descend? doc p with
  | none =>
    have hfix : ∀ f, modify f doc p = doc := fun f =>
      modify_of_fixed fun n hn => by rw [hd] at hn; cases hn
    rw [hfix, hfix]
    rfl
  | some parent =>
    have hconst : ∀ f, modify f doc p = modify (fun _ => f parent) doc p := fun f =>
      modify_congr fun n hn => by rw [hd] at hn; cases hn; rfl
    rw [hconst (moveField old new), hconst fun n => (takeChild n old).2]
    cases parent with
    | object ms =>
      cases hg : Members.get? old ms with
      | none => simp [takeChild, child?, moveField, hg, erase_of_get?_eq_none hg]
      | some value =>
        have hd' : descend? (modify (fun _ => .object (Members.erase old ms)) doc p) p =
            some (.object (Members.erase old ms)) := by rw [descend?_modify, hd]; rfl
        simp only [takeChild, child?, moveField, hg, Option.bind_some, Option.isSome_some]
        rw [set, if_pos (valid_append_singleton hp hnew), write_append value hd' rfl, modify_modify]
        rfl
    | array xs => simp [takeChild, child?, moveField, hi]
    | _ => rfl

theorem moveField_of_field?_eq_none {old new : String} (h : node.field? old = none) :
    moveField old new node = node := by
  cases node with
  | object ms =>
    rw [field?_object] at h
    rw [moveField, h]
  | _ => rfl

theorem field?_moveField_of_ne {old new other : String} (ho : other ≠ old) (hn : other ≠ new)
    (node : Json) : (moveField old new node).field? other = node.field? other := by
  cases node with
  | object ms =>
    cases hg : Members.get? old ms with
    | none => simp only [moveField, hg]
    | some value =>
      simp only [moveField, hg, field?_object]
      rw [Members.get?_put_of_ne hn, Members.get?_erase_of_ne ho]
  | _ => rfl

theorem field?_moveField_new {old new : String} (node : Json) :
    (moveField old new node).field? new = (node.field? old).or (node.field? new) := by
  cases node with
  | object ms =>
    cases hg : Members.get? old ms with
    | none => simp only [moveField, hg, field?_object, Option.none_or]
    | some value => simp only [moveField, hg, field?_object, Members.get?_put_self, Option.some_or]
  | _ => rfl

theorem field?_moveField_old {old new : String} (hne : old ≠ new) (h : node.KeysDistinct) :
    (moveField old new node).field? old = none := by
  cases node with
  | object ms =>
    cases hg : Members.get? old ms with
    | none => simp only [moveField, hg, field?_object]
    | some value =>
      simp only [moveField, hg, field?_object]
      rw [Members.get?_put_of_ne hne, Members.get?_erase_self h]
  | _ => rfl

theorem modify_field {key : String} (hk : index? key = none) (f : Json → Json) (node : Json) :
    modify f node [key] = onField key f node := by
  cases node with
  | object ms =>
    rw [modify, onField, child?, field?_object]
    cases Members.get? key ms <;> rfl
  | array xs => simp [modify, onField, child?, field?, hk]
  | _ => rfl

end Dialogue.Json
