import Dialogue.Proofs.Conversation.Nesting

namespace Dialogue

open Json (FitsIn onField mapItems moveField)

variable {depth : Nat}

namespace Json

def Keeps (f : Json → Json) : Prop :=
  ∀ ⦃depth : Nat⦄ ⦃value : Json⦄, FitsIn depth value → FitsIn depth (f value)

theorem Keeps.comp {f g : Json → Json} (hg : Keeps g) (hf : Keeps f) : Keeps (g ∘ f) :=
  fun _ _ h => hg (hf h)

theorem not_fits_zero_object {ms : Members} : ¬ FitsIn 0 (.object ms) := fun h =>
  Nat.not_succ_le_zero _ h.nesting

theorem Keeps.onField {f : Json → Json} (hf : Keeps f) (key : String) : Keeps (onField key f) := by
  intro depth node h
  cases depth with
  | zero =>
    cases node with
    | object ms => exact absurd h not_fits_zero_object
    | _ => exact h
  | succ depth => exact FitsIn.onField h (fun value hv => hf hv) key

theorem Keeps.mapItems {f : Json → Json} (hf : Keeps f) : Keeps (mapItems f) := by
  intro depth node h
  cases node with
  | array xs =>
    cases depth with
    | zero => exact absurd h.nesting (Nat.not_succ_le_zero _)
    | succ depth =>
      exact fitsIn_array.2 (List.forall_mem_map.2 fun x hx => hf (fitsIn_array.1 h x hx))
  | _ => exact h

theorem keeps_moveField (old new : String) : Keeps (moveField old new) := by
  intro depth node h
  cases node with
  | object ms =>
    cases depth with
    | zero => exact absurd h not_fits_zero_object
    | succ depth =>
      rw [moveField]
      split
      · next value hg => exact fitsIn_put (fitsIn_erase h old) (h.of_field? hg) new
      · exact h
  | _ => exact h

end Json

theorem Threshold.fitsIn_settings (threshold : Threshold) (depth : Nat) :
    FitsIn (depth + 2) threshold.settings := by
  refine Json.fitsIn_array.2 (List.forall_mem_map.2 fun category _ => ?_)
  exact Json.fitsIn_object.2 ⟨(by decide : ["category", "threshold"].Nodup),
    List.forall_mem_cons.2
      ⟨Json.fitsIn_string .., List.forall_mem_singleton.2 (Json.fitsIn_string ..)⟩⟩

namespace Body

variable {body : Json}

theorem keeps_renamedTool : Json.Keeps renamedTool :=
  ((Json.keeps_moveField _ _).mapItems.onField _).comp (Json.keeps_moveField _ _)

theorem keeps_renamedInstruction (context : Context) : Json.Keeps (renamedInstruction context) := by
  intro depth body h
  rw [renamedInstruction]
  split
  · exact Json.keeps_moveField _ _ h
  · exact h

theorem keeps_renamed (context : Context) : Json.Keeps (renamed context) :=
  (keeps_renamedInstruction context).comp
    (((Json.keeps_moveField _ _).onField _).comp (keeps_renamedTool.mapItems.onField _))

theorem fitsIn_withoutModel (h : FitsIn depth body) : FitsIn depth (withoutModel body) := by
  cases body with
  | object fields => exact Json.fitsIn_erase h "model"
  | _ => exact h

theorem fitsIn_withSettings (h : FitsIn (depth + 3) body) (threshold : Threshold) :
    FitsIn (depth + 3) (Stage.withSettings threshold body) := by
  rw [Stage.withSettings]
  split
  · exact h
  · exact h.putField (threshold.fitsIn_settings depth) "safetySettings"

/-- Seven levels have room for all that is ever put into a body, which are the body, its
conversation, a turn, its parts, a part, a response and the result in it. -/
theorem fitsIn_delivered (h : FitsIn (depth + 7) body) (context : Context) (ids : IdSource) :
    FitsIn (depth + 7) (delivered context ids body) := by
  refine fitsIn_withSettings ?_ context.threshold
  refine (keeps_renamed context h).onField (fun contents hc => ?_) "contents"
  cases contents with
  | array turns =>
    exact Json.fitsIn_array.2
      (Conversation.turnsFit_delivered (Json.fitsIn_array.1 hc) context.target context.family ids)
  | _ => exact hc

end Body

namespace Context

variable {body : Json}

theorem fitsIn_sealed (h : FitsIn (depth + 1) body) (context : Context) :
    FitsIn (depth + 2) (context.sealed body) := by
  rw [sealed]
  split
  · exact h.mono (Nat.le_succ _)
  · next key hk =>
    refine Json.fitsIn_object.2 ⟨?_, ?_⟩
    · cases ht : context.target with
      | gemini =>
        rw [ht] at hk
        cases hk
      | antigravity =>
        rw [ht] at hk
        cases hk
        exact (by decide : ["project", "request", "model"].Nodup)
    · exact List.forall_mem_cons.2 ⟨Json.fitsIn_string .., List.forall_mem_cons.2
        ⟨h, List.forall_mem_singleton.2 (Json.fitsIn_string ..)⟩⟩

end Context

end Dialogue
