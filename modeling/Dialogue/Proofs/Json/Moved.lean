import Dialogue.Proofs.Document.Rename
import Mathlib.Data.List.Forall2
import Mathlib.Logic.Relation

namespace Dialogue

namespace Json

variable {R S : Json → Json → Prop} {f g : Json → Json} {node sent : Json}

/-- An object in which a value has left one key for another, as it is: the old key is gone, and the
value stands where the new one was, or behind all members. -/
inductive Moved (old new : String) : Json → Json → Prop where
  | absent {node : Json} (h : node.field? old = none) : Moved old new node node
  | moved {front back : Members} {value sent : Json} (h : old ∉ front.map Prod.fst)
      (hs : WithField new value (.object (front ++ back)) sent) :
      Moved old new (.object (front ++ (old, value) :: back)) sent

inductive FieldBy (key : String) (R : Json → Json → Prop) : Json → Json → Prop where
  | absent {node : Json} (h : node.field? key = none) : FieldBy key R node node
  | changed {front back : Members} {value value' : Json} (h : key ∉ front.map Prod.fst)
      (hv : R value value') :
      FieldBy key R (.object (front ++ (key, value) :: back))
        (.object (front ++ (key, value') :: back))

inductive ItemsBy (R : Json → Json → Prop) : Json → Json → Prop where
  | array {xs ys : List Json} (h : List.Forall₂ R xs ys) : ItemsBy R (.array xs) (.array ys)
  | other {node : Json} (h : node.items? = none) : ItemsBy R node node

def IsGraph (R : Json → Json → Prop) (f : Json → Json) : Prop :=
  ∀ node sent, R node sent ↔ sent = f node

theorem isGraph_moved (old new : String) : IsGraph (Moved old new) (moveField old new) := by
  intro node sent
  constructor
  · intro h
    cases h with
    | absent h => exact (moveField_of_field?_eq_none h).symm
    | moved h hs =>
      rw [moveField, Members.get?_middle h, Members.erase_middle h]
      exact (withField_iff rfl).1 hs
  · rintro rfl
    cases hv : node.field? old with
    | none =>
      rw [moveField_of_field?_eq_none hv]
      exact .absent hv
    | some value =>
      cases node with
      | object ms =>
        obtain ⟨front, back, rfl, hf⟩ := Members.exists_middle_of_get? hv
        rw [moveField, Members.get?_middle hf, Members.erase_middle hf]
        exact .moved hf ((withField_iff rfl).2 rfl)
      | _ => cases hv

theorem IsGraph.fieldBy (h : IsGraph R f) (key : String) :
    IsGraph (FieldBy key R) (onField key f) := by
  intro node sent
  constructor
  · intro hs
    cases hs with
    | absent hn => exact (onField_of_field?_eq_none hn).symm
    | @changed front back value value' hk hv =>
      have hf : field? (.object (front ++ (key, value) :: back)) key = some value :=
        Members.get?_middle hk value back
      rw [onField_of_field? hf, putField_object, Members.put_middle hk, (h _ _).1 hv]
  · rintro rfl
    cases hv : node.field? key with
    | none =>
      rw [onField_of_field?_eq_none hv]
      exact .absent hv
    | some value =>
      cases node with
      | object ms =>
        obtain ⟨front, back, rfl, hf⟩ := Members.exists_middle_of_get? hv
        rw [onField_of_field? hv, putField_object, Members.put_middle hf]
        exact .changed hf ((h _ _).2 rfl)
      | _ => cases hv

theorem IsGraph.forall₂_iff (h : IsGraph R f) {xs ys : List Json} :
    List.Forall₂ R xs ys ↔ ys = xs.map f := by
  induction xs generalizing ys with
  | nil => rw [List.forall₂_nil_left_iff, List.map_nil]
  | cons x rest ih =>
    rw [List.forall₂_cons_left_iff, List.map_cons]
    constructor
    · rintro ⟨y, ys, hy, hr, rfl⟩
      rw [(h x y).1 hy, ih.1 hr]
    · rintro rfl
      exact ⟨_, _, (h x _).2 rfl, ih.2 rfl, rfl⟩

theorem IsGraph.itemsBy (h : IsGraph R f) : IsGraph (ItemsBy R) (mapItems f) := by
  intro node sent
  constructor
  · intro hs
    cases hs with
    | array hs => exact congrArg Json.array (h.forall₂_iff.1 hs)
    | @other node hn =>
      cases node with
      | array xs => cases hn
      | _ => rfl
  · rintro rfl
    cases node with
    | array xs => exact .array (h.forall₂_iff.2 rfl)
    | _ => exact .other rfl

theorem IsGraph.comp (hR : IsGraph R f) (hS : IsGraph S g) :
    IsGraph (Relation.Comp R S) (g ∘ f) := by
  intro node sent
  constructor
  · rintro ⟨between, hr, hs⟩
    rw [(hS _ _).1 hs, (hR _ _).1 hr, Function.comp_apply]
  · rintro rfl
    exact ⟨f node, (hR _ _).2 rfl, (hS _ _).2 rfl⟩

end Json

end Dialogue
