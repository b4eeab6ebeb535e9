import Dialogue.Proofs.Json.Fields
import Mathlib.Data.List.Forall2

namespace Dialogue

def Members.KeptBut (keys : List String) : Members → Members → Prop :=
  List.Forall₂ fun member kept => kept.1 = member.1 ∧ (member.1 ∉ keys → kept.2 = member.2)

theorem Members.isSome_get? {key : String} {ms : Members} :
    (get? key ms).isSome ↔ key ∈ ms.map Prod.fst := by
  rw [← not_iff_not, ← get?_eq_none_iff, Bool.not_eq_true, Option.isSome_eq_false_iff,
    Option.isNone_iff_eq_none]

theorem Members.put_append {key : String} {ms : Members} (h : key ∈ ms.map Prod.fst)
    (value : Json) (added : Members) : put key value (ms ++ added) = put key value ms ++ added := by
  induction ms with
  | nil => cases h
  | cons m rest ih =>
    obtain ⟨k, v⟩ := m
    rw [List.cons_append, put, put]
    split
    · rfl
    · next hk =>
      rw [ih ((List.mem_cons.1 h).resolve_left (Ne.symm hk)), List.cons_append]

namespace Members.KeptBut

variable {key : String} {keys : List String} {ms kept sent : Members}

theorem refl (keys : List String) (ms : Members) : KeptBut keys ms ms :=
  List.forall₂_same.2 fun _ _ => ⟨rfl, fun _ => rfl⟩

theorem trans (h : KeptBut keys ms kept) (hs : KeptBut keys kept sent) : KeptBut keys ms sent := by
  induction h generalizing sent with
  | nil => exact hs
  | cons hm _ ih =>
    cases hs with
    | cons hs hrest =>
      refine .cons ⟨hs.1.trans hm.1, fun hk => ?_⟩ (ih hrest)
      rw [hs.2 (hm.1 ▸ hk), hm.2 hk]

theorem map_fst (h : KeptBut keys ms kept) : kept.map Prod.fst = ms.map Prod.fst := by
  induction h with
  | nil => rfl
  | cons hm _ ih => rw [List.map_cons, List.map_cons, hm.1, ih]

theorem get? (h : KeptBut keys ms kept) (hk : key ∉ keys) :
    Members.get? key kept = Members.get? key ms := by
  induction h with
  | nil => rfl
  | @cons m m' _ _ hm _ ih =>
    obtain ⟨k, v⟩ := m
    obtain ⟨k', v'⟩ := m'
    obtain ⟨rfl, hv⟩ := hm
    rw [Members.get?, Members.get?, ih]
    split
    · next he => exact congrArg some (hv (he ▸ hk))
    · rfl

theorem put (h : key ∈ ms.map Prod.fst) (hk : key ∈ keys) (value : Json) :
    KeptBut keys ms (Members.put key value ms) := by
  induction ms with
  | nil => cases h
  | cons m rest ih =>
    obtain ⟨k, v⟩ := m
    rw [Members.put]
    split
    · next he => exact .cons ⟨rfl, fun hn => absurd (he ▸ hk) hn⟩ (refl keys rest)
    · next hne =>
      exact .cons ⟨rfl, fun _ => rfl⟩ (ih ((List.mem_cons.1 h).resolve_left (Ne.symm hne)))

end Members.KeptBut

namespace Json

def addedBy (key : String) (value node : Json) : Members :=
  if (node.field? key).isSome then [] else [(key, value)]

/-- An object in which only values under the given keys were changed, and behind whose members
others were added. -/
inductive Rewritten (keys : List String) (added : Members) : Json → Json → Prop where
  | object {ms kept : Members} (h : ms.KeptBut keys kept) :
      Rewritten keys added (.object ms) (.object (kept ++ added))

inductive Carried (R : Json → Json → Prop) : Json → Json → Prop where
  | verbatim {node : Json} (h : node.isObject = false) : Carried R node node
  | rewritten {node sent : Json} (h : node.isObject = true) (hr : R node sent) : Carried R node sent

variable {key : String} {keys : List String} {added : Members} {node sent final value : Json}

namespace Rewritten

theorem refl (h : node.isObject = true) (keys : List String) : Rewritten keys [] node node := by
  cases node with
  | object ms =>
    have hr : Rewritten keys [] (.object ms) (.object (ms ++ [])) := .object (.refl keys ms)
    rwa [List.append_nil] at hr
  | _ => cases h

theorem trans (h : Rewritten keys [] node sent) (hs : Rewritten keys added sent final) :
    Rewritten keys added node final := by
  cases h with
  | object h =>
    rw [List.append_nil] at hs
    cases hs with
    | object hs => exact .object (h.trans hs)

theorem putField_of_isSome (h : Rewritten keys added node sent) (hk : key ∈ keys)
    (hs : (node.field? key).isSome) (value : Json) :
    Rewritten keys added node (sent.putField key value) := by
  cases h with
  | @object ms kept h =>
    have hmem : key ∈ kept.map Prod.fst := by
      rw [h.map_fst]
      exact Members.isSome_get?.1 hs
    rw [putField_object, Members.put_append hmem]
    exact .object (h.trans (.put hmem hk value))

theorem putField_of_field?_eq_none (ho : node.isObject = true) (h : node.field? key = none)
    (keys : List String) (value : Json) :
    Rewritten keys [(key, value)] node (node.putField key value) := by
  cases node with
  | object ms =>
    rw [putField_object, Members.put_of_not_mem (Members.get?_eq_none_iff.1 h)]
    exact .object (.refl keys ms)
  | _ => cases ho

theorem putField (ho : node.isObject = true) (hk : key ∈ keys) (value : Json) :
    Rewritten keys (addedBy key value node) node (node.putField key value) := by
  rw [addedBy]
  split
  · next hs => exact (refl ho keys).putField_of_isSome hk hs value
  · next hs => exact putField_of_field?_eq_none ho (by simpa using hs) keys value

theorem isObject (h : Rewritten keys added node sent) : sent.isObject = true := by
  cases h
  rfl

theorem field? (h : Rewritten keys [] node sent) (hk : key ∉ keys) :
    sent.field? key = node.field? key := by
  cases h with
  | object h =>
    rw [List.append_nil]
    exact h.get? hk

theorem onField (h : Rewritten keys [] node sent) (hk : key ∈ keys) (f : Json → Json) :
    Rewritten keys [] node (Json.onField key f sent) := by
  rw [Json.onField]
  split
  · next value hf =>
    have hs : (node.field? key).isSome := by
      cases h with
      | object h =>
        rw [List.append_nil] at hf
        rw [field?_object, Members.isSome_get?, ← h.map_fst, ← Members.isSome_get?]
        exact Option.isSome_of_mem hf
    exact h.putField_of_isSome hk hs (f value)
  · exact h

end Rewritten

theorem addedBy_congr (h : node.field? key = sent.field? key) :
    addedBy key value node = addedBy key value sent := by
  rw [addedBy, h, addedBy]

end Json

end Dialogue
