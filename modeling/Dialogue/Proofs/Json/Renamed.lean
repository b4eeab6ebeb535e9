import Dialogue.Proofs.Json.Fields
import Mathlib.Data.List.Forall2

namespace Dialogue

namespace Json

mutual

/-- The second value is the first, with related texts in place of some of its texts; the keys of its
objects are the same. -/
inductive Renamed (R : String → String → Prop) : Json → Json → Prop where
  | same {value : Json} : Renamed R value value
  | string {old new : String} (h : R old new) : Renamed R (.string old) (.string new)
  | array {xs ys : List Json} (h : RenamedItems R xs ys) : Renamed R (.array xs) (.array ys)
  | object {ms ns : List (String × Json)} (h : RenamedMembers R ms ns) :
      Renamed R (.object ms) (.object ns)

inductive RenamedItems (R : String → String → Prop) : List Json → List Json → Prop where
  | nil : RenamedItems R [] []
  | cons {x y : Json} {xs ys : List Json} (h : Renamed R x y) (hrest : RenamedItems R xs ys) :
      RenamedItems R (x :: xs) (y :: ys)

inductive RenamedMembers (R : String → String → Prop) :
    List (String × Json) → List (String × Json) → Prop where
  | nil : RenamedMembers R [] []
  | cons {key : String} {v w : Json} {ms ns : List (String × Json)} (h : Renamed R v w)
      (hrest : RenamedMembers R ms ns) : RenamedMembers R ((key, v) :: ms) ((key, w) :: ns)

end

variable {R : String → String → Prop}

mutual

theorem Renamed.eq (hR : ∀ old new, R old new → old = new) :
    ∀ {v w : Json}, Renamed R v w → v = w
  | _, _, .same => rfl
  | _, _, .string h => congrArg Json.string (hR _ _ h)
  | _, _, .array h => congrArg Json.array (h.eq hR)
  | _, _, .object h => congrArg Json.object (h.eq hR)

theorem RenamedItems.eq (hR : ∀ old new, R old new → old = new) :
    ∀ {xs ys : List Json}, RenamedItems R xs ys → xs = ys
  | _, _, .nil => rfl
  | _, _, .cons h hrest => congrArg₂ List.cons (h.eq hR) (hrest.eq hR)

theorem RenamedMembers.eq (hR : ∀ old new, R old new → old = new) :
    ∀ {ms ns : List (String × Json)}, RenamedMembers R ms ns → ms = ns
  | _, _, .nil => rfl
  | _, _, .cons h hrest => congrArg₂ List.cons (congrArg _ (h.eq hR)) (hrest.eq hR)

end

theorem RenamedItems.of_forall₂ {xs ys : List Json} (h : List.Forall₂ (Renamed R) xs ys) :
    RenamedItems R xs ys := by
  induction h with
  | nil => exact .nil
  | cons h _ ih => exact .cons h ih

theorem RenamedMembers.refl (ms : Members) : RenamedMembers R ms ms := by
  induction ms with
  | nil => exact .nil
  | cons m rest ih => exact .cons .same ih

theorem RenamedMembers.put {v w : Json} (h : Renamed R v w) (key : String) (ms : Members) :
    RenamedMembers R (Members.put key v ms) (Members.put key w ms) := by
  induction ms with
  | nil => exact .cons h .nil
  | cons m rest ih =>
    obtain ⟨k, x⟩ := m
    rw [Members.put, Members.put]
    split
    · exact .cons h (.refl rest)
    · exact .cons .same ih

theorem Renamed.putField {v w : Json} (h : Renamed R v w) (node : Json) (key : String) :
    Renamed R (node.putField key v) (node.putField key w) := by
  cases node with
  | object ms => exact .object (.put h key ms)
  | _ => exact .same

end Json

end Dialogue
