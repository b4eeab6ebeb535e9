import Dialogue.Proofs.Document.Place

/-!
Where the segments of a path lead.  A segment spells a key or an index, depending on the node it
meets, so that two paths of different spellings can lead to one place; two steps from one node are
the same or lead to different children, and a write changes only the child it steps to.
-/

namespace Dialogue

inductive Address.Step where
  | key (name : String)
  | item (index : Nat)
  deriving DecidableEq, Repr

abbrev Address := List Address.Step

namespace Address

inductive Apart : Address → Address → Prop where
  | here {s t : Step} {a b : Address} (h : s ≠ t) : Apart (s :: a) (t :: b)
  | under {s : Step} {a b : Address} (h : Apart a b) : Apart (s :: a) (s :: b)

variable {s : Step} {a b : Address}

theorem Apart.rest (h : Apart (s :: a) (s :: b)) : Apart a b := by
  cases h with
  | here h => exact absurd rfl h
  | under h => exact h

theorem not_apart_nil : ¬ Apart a [] := nofun

end Address

namespace Json

open Dialogue.Path (index? appendSegment)
open Address (Step Apart)

variable {node child value : Json} {segment other : String} {rest path : Path}

/-- The step that a segment means.  Behind the items of an array there is one more index, where the
append segment leads. -/
def step (node : Json) (segment : String) : Step :=
  match node with
  | .array xs =>
    if segment = appendSegment then .item xs.length
    else (index? segment).elim (.key segment) .item
  | _ => .key segment

def address : Json → Path → Address
  | _, [] => []
  | node, segment :: rest => step node segment :: address (onward node segment) rest

theorem address_eq_nil_iff : address node path = [] ↔ path = [] := by
  cases path with
  | nil => exact ⟨fun _ => rfl, fun _ => rfl⟩
  | cons => exact ⟨nofun, nofun⟩

def childAt? : Json → Step → Option Json
  | .object ms, .key name => Members.get? name ms
  | .array xs, .item i => xs[i]?
  | _, _ => none

def appendsAt (node : Json) (segment : String) : Bool :=
  segment = appendSegment && node.items?.isSome

theorem child?_eq (node : Json) (segment : String) :
    child? node segment = childAt? node (step node segment) := by
  cases node with
  | array xs =>
    rw [step]
    split
    · next ha =>
      subst ha
      exact (List.getElem?_eq_none (Nat.le_refl _)).symm
    · rw [child?]
      cases index? segment <;> rfl
  | _ => rfl

theorem child?_of_step_eq (h : step node other = step node segment) :
    child? node other = child? node segment := by rw [child?_eq, h, ← child?_eq]

theorem onward_of_step_eq (h : step node other = step node segment) :
    onward node other = onward node segment := by rw [onward, child?_of_step_eq h, onward]

theorem address_of_step_eq (h : step node other = step node segment) (path : Path) :
    address node (other :: path) = step node segment :: address (onward node segment) path := by
  rw [address, h, onward_of_step_eq h]

theorem child?_of_appendsAt (h : appendsAt node segment = true) : child? node segment = none := by
  simp only [appendsAt, Bool.and_eq_true, decide_eq_true_eq] at h
  obtain ⟨rfl, h⟩ := h
  cases node with
  | array xs => rfl
  | _ => cases h

theorem appendsAt_of_child? (h : child? node segment = some child) :
    appendsAt node segment = false := by
  rw [← Bool.not_eq_true]
  intro ha
  rw [child?_of_appendsAt ha] at h
  cases h

theorem step_of_index? {i : Nat} (hi : index? segment = some i) (xs : List Json) :
    step (.array xs) segment = .item i := by
  rw [step, if_neg (ne_appendSegment_of_index? hi), hi]
  rfl

theorem index?_of_step {xs : List Json} {i : Nat} (hs : step (.array xs) segment = .item i)
    (ha : appendsAt (.array xs) segment = false) : index? segment = some i := by
  have hne : segment ≠ appendSegment := by
    rintro rfl
    cases ha
  rw [step, if_neg hne] at hs
  cases hi : index? segment with
  | none => rw [hi] at hs; cases hs
  | some j => rw [hi] at hs; cases hs; rfl

theorem place_array {xs : List Json} (hp : hasPlace (.array xs) segment rest = true) :
    ∃ i, step (.array xs) segment = .item i ∧
      ((i < xs.length ∧ ∀ value, place (.array xs) segment value = .array (xs.set i value)) ∨
        (i = xs.length ∧ ∀ value, place (.array xs) segment value = .array (xs ++ [value]))) := by
  by_cases ha : segment = appendSegment
  · exact ⟨xs.length, by rw [step, if_pos ha],
      .inr ⟨rfl, fun value => by simp [place, assign?, ha]⟩⟩
  · cases hi : index? segment with
    | none => simp [hasPlace, ha, hi] at hp
    | some i =>
      refine ⟨i, by rw [step, if_neg ha, hi]; rfl, ?_⟩
      rcases Nat.lt_trichotomy i xs.length with h | h | h
      · exact .inl ⟨h, fun value => by simp [place, assign?, ha, hi, h]⟩
      · exact .inr ⟨h, fun value => by simp [place, assign?, ha, hi, h]⟩
      · simp [hasPlace, ha, hi, Nat.not_lt_of_gt h, Nat.ne_of_gt h] at hp

theorem childAt?_place (hp : hasPlace node segment rest = true) (value : Json) (s : Step) :
    childAt? (place node segment value) s =
      if s = step node segment then some value else childAt? node s := by
  have hobject : ∀ ms : Members, childAt? (.object (Members.put segment value ms)) s =
      if s = .key segment then some value else childAt? (.object ms) s := by
    intro ms
    cases s with
    | item => rfl
    | key name =>
      by_cases hs : name = segment
      · simp [childAt?, hs]
      · simp [childAt?, hs, Members.get?_put_of_ne hs]
  cases node with
  | null => exact (hobject []).trans (by cases s <;> rfl)
  | object ms => exact hobject ms
  | array xs =>
    obtain ⟨i, hi, ⟨hlt, hp⟩ | ⟨rfl, hp⟩⟩ := place_array hp
    · rw [hi, hp]
      cases s with
      | key => rfl
      | item j =>
        by_cases hj : j = i
        · simp [childAt?, hj, hlt]
        · simp [childAt?, hj, List.getElem?_set_ne (Ne.symm hj)]
    · rw [hi, hp]
      cases s with
      | key => rfl
      | item j =>
        by_cases hj : j = xs.length
        · simp [childAt?, hj]
        · have hg : (xs ++ [value])[j]? = xs[j]? := by
            rcases Nat.lt_or_gt_of_ne hj with h | h
            · exact List.getElem?_append_left h
            · rw [List.getElem?_eq_none (Nat.le_of_lt h),
                List.getElem?_eq_none (by rw [List.length_append]; exact h)]
          simp [childAt?, hj, hg]
  | _ => cases hp

theorem step_place (hp : hasPlace node segment rest = true) (value : Json)
    (ha : appendsAt node other = false) :
    step (place node segment value) other = step node other := by
  cases node with
  | array xs =>
    have ho : other ≠ appendSegment := by
      rintro rfl
      cases ha
    obtain ⟨i, -, ⟨-, hp⟩ | ⟨-, hp⟩⟩ := place_array hp
    · rw [hp, step, step, if_neg ho, if_neg ho]
    · rw [hp, step, step, if_neg ho, if_neg ho]
  | null => rfl
  | object ms => rfl
  | _ => cases hp

theorem appendsAt_place (hp : hasPlace node segment rest = true) (value : Json) (other : String) :
    appendsAt (place node segment value) other = appendsAt node other := by
  cases node with
  | array xs =>
    obtain ⟨i, -, ⟨-, hp⟩ | ⟨-, hp⟩⟩ := place_array hp
    · rw [hp]; rfl
    · rw [hp]; rfl
  | null => rfl
  | object ms => rfl
  | _ => cases hp

theorem child?_place_of_ne (hp : hasPlace node segment rest = true) (value : Json)
    (hs : step node other ≠ step node segment) :
    child? (place node segment value) other = child? node other := by
  cases ha : appendsAt node other with
  | true =>
    rw [child?_of_appendsAt ha, child?_of_appendsAt ((appendsAt_place hp value other).trans ha)]
  | false => rw [child?_eq, step_place hp value ha, childAt?_place hp, if_neg hs, ← child?_eq]

theorem child?_place_of_eq (hp : hasPlace node segment rest = true) (value : Json)
    (hs : step node other = step node segment) (ha : appendsAt node other = false) :
    child? (place node segment value) other = some value := by
  rw [child?_eq, step_place hp value ha, childAt?_place hp, if_pos hs]

theorem place_place (hp : hasPlace node segment rest = true) (ha : appendsAt node segment = false)
    (v w : Json) : place (place node segment v) segment w = place node segment w := by
  rw [place_of_child? (child?_place_of_eq hp v rfl ha)]
  cases node with
  | null => simp [place, assign?, putChild, Members.put]
  | object ms => simp [place, assign?, putChild]
  | array xs =>
    obtain ⟨i, hi, ⟨-, hp⟩ | ⟨rfl, hp⟩⟩ := place_array hp
    · rw [hp, hp, putChild, index?_of_step hi ha]
      simp
    · rw [hp, hp, putChild, index?_of_step hi ha]
      simp
  | _ => cases hp

end Json

end Dialogue
