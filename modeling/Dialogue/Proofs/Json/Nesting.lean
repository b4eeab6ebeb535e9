import Dialogue.Proofs.Json.Fields
import Dialogue.Proofs.Json.Numeral

namespace Dialogue.Json

mutual

def nesting : Json → Nat
  | .array xs => nestingItems xs + 1
  | .object ms => nestingMembers ms + 1
  | _ => 0

def nestingItems : List Json → Nat
  | [] => 0
  | x :: xs => max (nesting x) (nestingItems xs)

def nestingMembers : List (String × Json) → Nat
  | [] => 0
  | (_, v) :: rest => max (nesting v) (nestingMembers rest)

end

mutual

/-- Numbers are spelled as the reader keeps them, and no object repeats a key. -/
def Legible : Json → Prop
  | .number spelling => IsNumeral spelling
  | .array xs => LegibleItems xs
  | .object ms => (ms.map Prod.fst).Nodup ∧ LegibleMembers ms
  | _ => True

def LegibleItems : List Json → Prop
  | [] => True
  | x :: xs => Legible x ∧ LegibleItems xs

def LegibleMembers : List (String × Json) → Prop
  | [] => True
  | (_, v) :: rest => Legible v ∧ LegibleMembers rest

end

structure FitsIn (depth : Nat) (value : Json) : Prop where
  legible : Legible value
  nesting : value.nesting ≤ depth

variable {depth deeper : Nat} {key : String} {node value : Json} {xs : List Json} {ms : Members}

theorem nestingItems_le : nestingItems xs ≤ depth ↔ ∀ x ∈ xs, x.nesting ≤ depth := by
  induction xs with
  | nil => simp [nestingItems]
  | cons x xs ih => rw [nestingItems, Nat.max_le, ih, List.forall_mem_cons]

theorem nestingMembers_le : nestingMembers ms ≤ depth ↔ ∀ m ∈ ms, m.2.nesting ≤ depth := by
  induction ms with
  | nil => simp [nestingMembers]
  | cons m ms ih => rw [nestingMembers, Nat.max_le, ih, List.forall_mem_cons]

theorem legibleItems_iff : LegibleItems xs ↔ ∀ x ∈ xs, Legible x := by
  induction xs with
  | nil => simp [LegibleItems]
  | cons x xs ih => rw [LegibleItems, ih, List.forall_mem_cons]

theorem legibleMembers_iff : LegibleMembers ms ↔ ∀ m ∈ ms, Legible m.2 := by
  induction ms with
  | nil => simp [LegibleMembers]
  | cons m ms ih => rw [LegibleMembers, ih, List.forall_mem_cons]

mutual

theorem Legible.distinct : ∀ {value : Json}, Legible value → value.Distinct
  | .null, _ | .bool _, _ | .number _, _ | .string _, _ => trivial
  | .array _, h => LegibleItems.distinct h
  | .object _, h => ⟨h.1, LegibleMembers.distinct h.2⟩

theorem LegibleItems.distinct : ∀ {xs : List Json}, LegibleItems xs → DistinctItems xs
  | [], _ => trivial
  | _ :: _, h => ⟨h.1.distinct, LegibleItems.distinct h.2⟩

theorem LegibleMembers.distinct : ∀ {ms : Members}, LegibleMembers ms → DistinctMembers ms
  | [], _ => trivial
  | _ :: _, h => ⟨h.1.distinct, LegibleMembers.distinct h.2⟩

end

theorem fitsIn_null (depth : Nat) : FitsIn depth .null := ⟨trivial, Nat.zero_le _⟩

theorem fitsIn_bool (depth : Nat) (b : Bool) : FitsIn depth (.bool b) := ⟨trivial, Nat.zero_le _⟩

theorem fitsIn_string (depth : Nat) (text : String) : FitsIn depth (.string text) :=
  ⟨trivial, Nat.zero_le _⟩

theorem fitsIn_number {spelling : String} (depth : Nat) (h : IsNumeral spelling) :
    FitsIn depth (.number spelling) := ⟨h, Nat.zero_le _⟩

theorem fitsIn_array : FitsIn (depth + 1) (.array xs) ↔ ∀ x ∈ xs, FitsIn depth x := by
  constructor
  · rintro ⟨hl, hn⟩ x hx
    exact ⟨legibleItems_iff.1 hl x hx, nestingItems_le.1 (Nat.le_of_succ_le_succ hn) x hx⟩
  · intro h
    exact ⟨legibleItems_iff.2 fun x hx => (h x hx).legible,
      Nat.succ_le_succ (nestingItems_le.2 fun x hx => (h x hx).nesting)⟩

theorem fitsIn_object :
    FitsIn (depth + 1) (.object ms) ↔ (ms.map Prod.fst).Nodup ∧ ∀ m ∈ ms, FitsIn depth m.2 := by
  constructor
  · rintro ⟨⟨hk, hl⟩, hn⟩
    exact ⟨hk, fun m hm =>
      ⟨legibleMembers_iff.1 hl m hm, nestingMembers_le.1 (Nat.le_of_succ_le_succ hn) m hm⟩⟩
  · rintro ⟨hk, h⟩
    exact ⟨⟨hk, legibleMembers_iff.2 fun m hm => (h m hm).legible⟩,
      Nat.succ_le_succ (nestingMembers_le.2 fun m hm => (h m hm).nesting)⟩

theorem fitsIn_object_nil (depth : Nat) : FitsIn (depth + 1) (.object []) :=
  fitsIn_object.2 ⟨.nil, List.forall_mem_nil _⟩

theorem FitsIn.mono (h : FitsIn depth value) (hd : depth ≤ deeper) : FitsIn deeper value :=
  ⟨h.legible, h.nesting.trans hd⟩

theorem mem_of_get? (h : Members.get? key ms = some value) : (key, value) ∈ ms := by
  induction ms with
  | nil => cases h
  | cons m rest ih =>
    obtain ⟨k, v⟩ := m
    rw [Members.get?] at h
    split at h
    · next hk =>
      cases h
      rw [hk]
      exact .head _
    · exact .tail _ (ih h)

theorem mem_put {m : String × Json} (h : m ∈ Members.put key value ms) :
    m = (key, value) ∨ m ∈ ms := by
  induction ms with
  | nil => exact .inl (List.mem_singleton.1 h)
  | cons n rest ih =>
    obtain ⟨k, v⟩ := n
    rw [Members.put] at h
    split at h
    · next hk =>
      rcases List.mem_cons.1 h with rfl | h
      · exact .inl (by rw [hk])
      · exact .inr (.tail _ h)
    · rcases List.mem_cons.1 h with rfl | h
      · exact .inr (.head _)
      · exact (ih h).imp_right (.tail _)

theorem nesting_lt_of_field? (h : node.field? key = some value) :
    value.nesting < node.nesting := by
  cases node with
  | object ms => exact Nat.lt_succ_of_le (nestingMembers_le.1 le_rfl _ (mem_of_get? h))
  | _ => cases h

theorem FitsIn.of_field? (h : FitsIn (depth + 1) node) (hv : node.field? key = some value) :
    FitsIn depth value := by
  cases node with
  | object ms => exact (fitsIn_object.1 h).2 _ (mem_of_get? hv)
  | _ => cases hv

theorem fitsIn_put (h : FitsIn (depth + 1) (.object ms)) (hv : FitsIn depth value) (key : String) :
    FitsIn (depth + 1) (.object (Members.put key value ms)) := by
  obtain ⟨hk, hms⟩ := fitsIn_object.1 h
  refine fitsIn_object.2 ⟨Members.nodup_put hk, fun m hm => ?_⟩
  rcases mem_put hm with rfl | hm
  · exact hv
  · exact hms m hm

theorem fitsIn_erase (h : FitsIn depth (.object ms)) (key : String) :
    FitsIn depth (.object (Members.erase key ms)) := by
  cases depth with
  | zero => cases h.nesting
  | succ depth =>
    obtain ⟨hk, hms⟩ := fitsIn_object.1 h
    have hsub := Members.erase_sublist key ms
    exact fitsIn_object.2 ⟨hk.sublist (hsub.map _), fun m hm => hms m (hsub.subset hm)⟩

theorem FitsIn.putField (h : FitsIn (depth + 1) node) (hv : FitsIn depth value) (key : String) :
    FitsIn (depth + 1) (node.putField key value) := by
  cases node with
  | object ms => exact fitsIn_put h hv key
  | _ => exact h

theorem FitsIn.onField {f : Json → Json} (h : FitsIn (depth + 1) node)
    (hf : ∀ value, FitsIn depth value → FitsIn depth (f value)) (key : String) :
    FitsIn (depth + 1) (onField key f node) := by
  rw [Json.onField]
  split
  · next value hv => exact h.putField (hf value (h.of_field? hv)) key
  · exact h

end Dialogue.Json
