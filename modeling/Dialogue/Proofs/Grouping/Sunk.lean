import Dialogue.Proofs.Grouping.Balance

/-!
The open groups, which only their sizes tell apart.  When responses arrive for an older group, a
newer one of the same size is closed in its place, and the older stays where it is: in the list of
those that wait, a size has sunk below sizes that are no smaller.
-/

namespace Dialogue.Conversation

/-- The second list is the first with some entries moved towards the front, past entries that are
no smaller. -/
inductive Sunk : List Nat → List Nat → Prop where
  | nil : Sunk [] []
  | cons (n : Nat) {sizes sunk : List Nat} (h : Sunk sizes sunk) : Sunk (n :: sizes) (n :: sunk)
  | swap {m n : Nat} (h : m ≤ n) (sizes : List Nat) : Sunk (n :: m :: sizes) (m :: n :: sizes)
  | trans {sizes sunk lower : List Nat} (h : Sunk sizes sunk) (h' : Sunk sunk lower) :
      Sunk sizes lower

namespace Sunk

variable {sizes sunk : List Nat}

theorem refl (sizes : List Nat) : Sunk sizes sizes := by
  induction sizes with
  | nil => exact .nil
  | cons n _ ih => exact .cons n ih

theorem perm (h : Sunk sizes sunk) : sizes.Perm sunk := by
  induction h with
  | nil => exact .nil
  | cons n _ ih => exact ih.cons n
  | swap _ sizes => exact .swap ..
  | trans _ _ ih ih' => exact ih.trans ih'

theorem append (h : Sunk sizes sunk) (more : List Nat) : Sunk (sizes ++ more) (sunk ++ more) := by
  induction h with
  | nil => exact refl more
  | cons n _ ih => exact .cons n ih
  | swap h sizes => exact .swap h (sizes ++ more)
  | trans _ _ ih ih' => exact ih.trans ih'

theorem toFront {n : Nat} {front : List Nat} (h : ∀ m ∈ front, n ≤ m) (back : List Nat) :
    Sunk (front ++ n :: back) (n :: (front ++ back)) := by
  induction front with
  | nil => exact refl _
  | cons m front ih =>
    have hfront := ih fun k hk => h k (.tail _ hk)
    exact (hfront.cons m).trans (.swap (h m (.head _)) _)

end Sunk

namespace Grouper

theorem takeNewest?_of_lt {there : Nat} {pending : List Nat} (h : ∀ n ∈ pending, there < n) :
    takeNewest? there pending = none := by
  cases ht : takeNewest? there pending with
  | none => rfl
  | some found =>
    obtain ⟨needed, rest⟩ := found
    obtain ⟨l, r, rfl, -, hle, -⟩ := takeNewest?_eq_some ht
    exact absurd hle (Nat.not_le_of_lt (h needed (List.mem_append_right _ (.head _))))

theorem takeNewest?_exact (older : List Nat) {size : Nat} {newer : List Nat}
    (h : ∀ n ∈ newer, size ≤ n) :
    ∃ rest, takeNewest? size (older ++ size :: newer) = some (size, rest) ∧
      Sunk (older ++ newer) rest := by
  induction older with
  | nil =>
    rw [List.nil_append, List.nil_append, takeNewest?]
    cases ht : takeNewest? size newer with
    | none => exact ⟨newer, if_pos (Nat.le_refl size), .refl newer⟩
    | some found =>
      obtain ⟨needed, rest⟩ := found
      obtain ⟨l, r, rfl, rfl, hle, -⟩ := takeNewest?_eq_some ht
      -- A newer one that can be filled is of the same size, and is taken in the place of this one.
      have hsize := h needed (List.mem_append_right _ (.head _))
      cases Nat.le_antisymm hle hsize
      exact ⟨size :: (l ++ r), rfl, .toFront (fun m hm => h m (List.mem_append_left _ hm)) r⟩
  | cons n older ih =>
    obtain ⟨rest, ht, hs⟩ := ih
    rw [List.cons_append, takeNewest?, ht]
    exact ⟨n :: rest, rfl, hs.cons n⟩

theorem takeNewest?_sunk {size : Nat} {sizes sunk rest : List Nat} (h : Sunk sizes sunk)
    (ht : takeNewest? size sizes = some (size, rest)) :
    ∃ rest', takeNewest? size sunk = some (size, rest') ∧ Sunk rest rest' := by
  induction h generalizing rest with
  | nil => cases ht
  | @cons n sizes sunk h ih =>
    rw [takeNewest?] at ht ⊢
    cases hn : takeNewest? size sizes with
    | some found =>
      obtain ⟨needed, others⟩ := found
      rw [hn] at ht
      cases ht
      obtain ⟨rest', ht', hs⟩ := ih hn
      rw [ht']
      exact ⟨n :: rest', rfl, hs.cons n⟩
    | none =>
      have hnone : takeNewest? size sunk = none :=
        takeNewest?_of_lt fun m hm => takeNewest?_eq_none hn m (h.perm.mem_iff.2 hm)
      rw [hn] at ht
      rw [hnone]
      dsimp only at ht ⊢
      split at ht
      · next hle =>
        cases ht
        exact ⟨sunk, if_pos hle, h⟩
      · cases ht
  | @swap m n hmn sizes =>
    rw [takeNewest?, takeNewest?] at ht ⊢
    cases hn : takeNewest? size sizes with
    | some found =>
      obtain ⟨needed, others⟩ := found
      rw [hn] at ht
      cases ht
      exact ⟨m :: n :: others, rfl, .swap hmn others⟩
    | none =>
      rw [hn] at ht
      dsimp only at ht ⊢
      by_cases hm : m ≤ size
      · rw [if_pos hm] at ht
        cases ht
        by_cases hle : n ≤ size
        · cases Nat.le_antisymm hmn hle
          rw [if_pos hle]
          exact ⟨size :: sizes, rfl, .refl _⟩
        · rw [if_neg hle]
          exact ⟨n :: sizes, if_pos (Nat.le_refl size), .refl _⟩
      · rw [if_neg hm] at ht
        dsimp only at ht
        rw [if_neg fun hle => hm (Nat.le_trans hmn hle)] at ht
        cases ht
  | trans _ _ ih ih' =>
    obtain ⟨rest', ht', hs⟩ := ih ht
    obtain ⟨rest'', ht'', hs'⟩ := ih' ht'
    exact ⟨rest'', ht'', hs.trans hs'⟩

end Grouper

end Dialogue.Conversation
