namespace Dialogue

variable {α β ε φ : Type}

theorem bind_eq_ok {first : Except ε α} {next : α → Except ε β} {b : β}
    (h : first >>= next = .ok b) : ∃ a, first = .ok a ∧ next a = .ok b := by
  cases first with
  | error e => cases h
  | ok a => exact ⟨a, rfl, h⟩

theorem map_eq_error_iff {f : α → β} {result : Except ε α} {error : ε} :
    result.map f = .error error ↔ result = .error error := by
  cases result with
  | error e => exact ⟨fun h => by cases h; rfl, fun h => by cases h; rfl⟩
  | ok a => exact ⟨nofun, nofun⟩

theorem map_eq_ok_iff {f : α → β} {result : Except ε α} {b : β} :
    result.map f = .ok b ↔ ∃ a, result = .ok a ∧ b = f a := by
  cases result with
  | error e => exact ⟨nofun, nofun⟩
  | ok a => exact ⟨fun h => ⟨a, rfl, (Except.ok.inj h).symm⟩, by rintro ⟨_, ⟨⟩, rfl⟩; rfl⟩

theorem mapError_eq_error_iff {f : ε → φ} {result : Except ε α} {error : φ} :
    result.mapError f = .error error ↔ ∃ reason, result = .error reason ∧ error = f reason := by
  cases result with
  | error e => exact ⟨fun h => ⟨e, rfl, (Except.error.inj h).symm⟩, by rintro ⟨_, ⟨⟩, rfl⟩; rfl⟩
  | ok a => exact ⟨nofun, nofun⟩

theorem mapError_eq_ok_iff {f : ε → φ} {result : Except ε α} {value : α} :
    result.mapError f = .ok value ↔ result = .ok value := by
  cases result with
  | error e => exact ⟨nofun, nofun⟩
  | ok a => exact ⟨fun h => by cases h; rfl, fun h => by cases h; rfl⟩

end Dialogue
