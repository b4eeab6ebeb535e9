import Dialogue.Proofs.Json.Nesting

namespace Dialogue.Json

open Byte

variable {fuel depth : Nat} {input rest : List UInt8}

theorem fitsIn_scanWord {word : List UInt8} {value result : Json} (hv : FitsIn depth value)
    (h : scanWord value word input = .ok (result, rest)) : FitsIn depth result := by
  induction word generalizing input with
  | nil =>
    cases h
    exact hv
  | cons e es ih =>
    cases input with
    | nil => cases h
    | cons b bs =>
      rw [scanWord] at h
      split at h
      · exact ih h
      · cases h

mutual

theorem fitsIn_scanValue : ∀ (fuel depth : Nat) {input rest : List UInt8} {value : Json},
    scanValue fuel depth input = .ok (value, rest) → FitsIn depth value
  | 0, _, _, _, _, h => nomatch h
  | fuel + 1, depth, input, rest, value, h => by
    rw [scanValue] at h
    split at h
    · cases h
    · next b bs _ =>
      split at h
      · obtain ⟨⟨text, left⟩, -, h⟩ := bind_eq_ok h
        cases h
        exact fitsIn_string depth text
      split at h
      · cases depth with
        | zero => cases h
        | succ depth =>
          dsimp only at h
          split at h
          · cases h
          · split at h
            · cases h
              exact fitsIn_array.2 (List.forall_mem_nil _)
            · obtain ⟨⟨first, left⟩, hfirst, h⟩ := bind_eq_ok h
              obtain ⟨⟨items, left⟩, hitems, h⟩ := bind_eq_ok h
              cases h
              have hread := fitsIn_scanValue fuel depth hfirst
              exact fitsIn_array.2
                (fitsIn_scanItems fuel depth (List.forall_mem_singleton.2 hread) hitems)
      split at h
      · cases depth with
        | zero => cases h
        | succ depth =>
          dsimp only at h
          split at h
          · cases h
          · split at h
            · cases h
              exact fitsIn_object_nil depth
            · split at h
              · obtain ⟨⟨key, left⟩, -, h⟩ := bind_eq_ok h
                obtain ⟨⟨_, left⟩, -, h⟩ := bind_eq_ok h
                obtain ⟨⟨first, left⟩, hfirst, h⟩ := bind_eq_ok h
                obtain ⟨⟨members, left⟩, hmembers, h⟩ := bind_eq_ok h
                cases h
                have hread := fitsIn_scanValue fuel depth hfirst
                have hone : FitsIn (depth + 1) (.object [(key, first)]) :=
                  fitsIn_put (fitsIn_object_nil depth) hread key
                exact fitsIn_scanMembers fuel depth hone hmembers
              · cases h
      split at h
      · obtain ⟨⟨spelling, left⟩, hs, h⟩ := bind_eq_ok h
        cases h
        obtain ⟨bytes, hb, rfl⟩ := exists_unsigned_of_scanNumber hs
        exact fitsIn_number depth (.negative hb)
      split at h
      · obtain ⟨⟨spelling, left⟩, hs, h⟩ := bind_eq_ok h
        cases h
        obtain ⟨bytes, hb, rfl⟩ := exists_unsigned_of_scanNumber hs
        exact fitsIn_number depth (.unsigned hb)
      split at h
      · exact fitsIn_scanWord (fitsIn_null depth) h
      split at h
      · exact fitsIn_scanWord (fitsIn_bool depth true) h
      split at h
      · exact fitsIn_scanWord (fitsIn_bool depth false) h
      · cases h

theorem fitsIn_scanItems : ∀ (fuel depth : Nat) {read items : List Json} {input rest : List UInt8},
    (∀ x ∈ read, FitsIn depth x) → scanItems fuel depth read input = .ok (items, rest) →
    ∀ x ∈ items, FitsIn depth x
  | 0, _, _, _, _, _, _, h => nomatch h
  | fuel + 1, depth, read, items, input, rest, hread, h => by
    rw [scanItems] at h
    split at h
    · cases h
    · split at h
      · cases h
        exact fun x hx => hread x (List.mem_reverse.1 hx)
      split at h
      · split at h
        · cases h
        · split at h
          · cases h
          · obtain ⟨⟨item, left⟩, hitem, h⟩ := bind_eq_ok h
            have hitem := fitsIn_scanValue fuel depth hitem
            exact fitsIn_scanItems fuel depth (List.forall_mem_cons.2 ⟨hitem, hread⟩) h
      · cases h

theorem fitsIn_scanMembers : ∀ (fuel depth : Nat) {read members : Members}
    {input rest : List UInt8},
    FitsIn (depth + 1) (.object read) → scanMembers fuel depth read input = .ok (members, rest) →
    FitsIn (depth + 1) (.object members)
  | 0, _, _, _, _, _, _, h => nomatch h
  | fuel + 1, depth, read, members, input, rest, hread, h => by
    rw [scanMembers] at h
    split at h
    · cases h
    · split at h
      · cases h
        exact hread
      split at h
      · split at h
        · cases h
        · split at h
          · obtain ⟨⟨key, left⟩, -, h⟩ := bind_eq_ok h
            obtain ⟨⟨_, left⟩, -, h⟩ := bind_eq_ok h
            obtain ⟨⟨value, left⟩, hvalue, h⟩ := bind_eq_ok h
            have hvalue := fitsIn_scanValue fuel depth hvalue
            exact fitsIn_scanMembers fuel depth (fitsIn_put hread hvalue key) h
          · split at h <;> cases h
      · cases h

end

theorem fitsIn_of_read {value : Json} (h : read input = .ok value) : FitsIn depthLimit value := by
  rw [read] at h
  split at h
  · next hs =>
    cases h
    obtain ⟨⟨value, left⟩, hv, hs⟩ := bind_eq_ok hs
    dsimp only at hs
    split at hs
    · cases hs
      exact fitsIn_scanValue _ _ hv
    · cases hs
  · cases h

theorem distinct_of_read {value : Json} (h : read input = .ok value) : value.Distinct :=
  (fitsIn_of_read h).legible.distinct

end Dialogue.Json
