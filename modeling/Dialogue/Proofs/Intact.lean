import Dialogue.Proofs.Document.Write
import Dialogue.Proofs.Stage

namespace Dialogue

open Json (descend? StopsAt)

def Context.settingsPath (context : Context) : Path := context.path ["safetySettings"]

namespace Stage

inductive Rejects (context : Context) (document : Json) : Stage → DocumentError → Prop where
  | missing (h : document.get? context.conversationPath = none) :
      Rejects context document .grouping (.missingConversation context.conversationPath.text)
  | malformed {node : Json} (h : document.get? context.conversationPath = some node)
      (hi : ∀ turns, node ≠ .array turns) :
      Rejects context document .grouping (.malformedConversation context.conversationPath.text)
  | noPlace {segment : String} (hs : document.get? context.settingsPath = none)
      (h : StopsAt document context.settingsPath segment) :
      Rejects context document .safety
        (.blocked (.notAContainer context.settingsPath.text segment))

variable {context : Context} {ids : IdSource} {document : Json}

theorem valid_settingsPath (context : Context) : context.settingsPath.valid = true :=
  Json.valid_append_singleton (Body.ne_empty_of_mem_bodyPath context) (by decide)

theorem isField_settingsPath (context : Context) :
    ∀ segment ∈ context.settingsPath, Path.IsField segment := by
  rw [Context.settingsPath, Context.path]
  cases context.target with
  | gemini =>
    intro segment hs
    rw [List.mem_singleton.1 hs]
    exact ⟨by decide, by decide⟩
  | antigravity =>
    intro segment hs
    rcases List.mem_pair.1 hs with rfl | rfl
    · exact ⟨by decide, by decide⟩
    · exact ⟨by decide, by decide⟩

theorem grouping_rejects (context : Context) (ids : IdSource) (document : Json)
    (error : DocumentError) :
    (Stage.grouping.apply context ids document).failure = some error ↔
      Rejects context document .grouping error := by
  constructor
  · intro h
    rw [Stage.apply, groupResponses] at h
    split at h
    · next hn =>
      cases h
      exact .missing hn
    · cases h
    · next hi hn =>
      cases h
      exact .malformed hn hi
  · rintro (hn | ⟨hn, hi⟩)
    · rw [Stage.apply, groupResponses, hn]
    · rw [Stage.apply, groupResponses, hn]
      split
      · next he => cases he
      · next turns he => exact absurd (Option.some.inj he) (hi turns)
      · rfl

theorem grouping_intact (h : (Stage.grouping.apply context ids document).failure ≠ none) :
    (Stage.grouping.apply context ids document).document = document := by
  rw [Stage.apply, groupResponses] at h ⊢
  split at h
  · rfl
  · exact absurd rfl h
  · rfl

theorem safety_spec (context : Context) (ids : IdSource) (document : Json) :
    (Stage.safety.apply context ids document).failure =
        (if (document.get? context.settingsPath).isSome then none
          else (Json.write context.threshold.settings document context.settingsPath).2.map
            fun segment => .blocked (.notAContainer context.settingsPath.text segment)) ∧
      ((Stage.safety.apply context ids document).failure ≠ none →
        (Stage.safety.apply context ids document).document =
          (Json.write context.threshold.settings document context.settingsPath).1) := by
  rw [Stage.apply, attachSettings, ← Context.settingsPath, Json.has]
  cases (document.get? context.settingsPath).isSome with
  | true => exact ⟨rfl, fun h => absurd rfl h⟩
  | false =>
    rw [Json.set, if_pos (valid_settingsPath context)]
    cases hw : Json.write context.threshold.settings document context.settingsPath with
    | mk written blocked => cases blocked <;> exact ⟨rfl, fun _ => rfl⟩

theorem safety_rejects (context : Context) (ids : IdSource) (document : Json)
    (error : DocumentError) :
    (Stage.safety.apply context ids document).failure = some error ↔
      Rejects context document .safety error := by
  rw [(safety_spec context ids document).1]
  cases hs : document.get? context.settingsPath with
  | some settings =>
    refine ⟨nofun, ?_⟩
    rintro ⟨⟩
    next hn _ => rw [hs] at hn; cases hn
  | none =>
    rw [Option.isSome_none, if_neg Bool.false_ne_true, Option.map_eq_some_iff]
    constructor
    · rintro ⟨segment, hw, rfl⟩
      exact .noPlace hs ((Json.write_blocked_iff (isField_settingsPath context)).1 hw)
    · rintro ⟨⟩
      next segment _ hstop =>
        exact ⟨segment, (Json.write_blocked_iff (isField_settingsPath context)).2 hstop, rfl⟩

theorem safety_intact (h : (Stage.safety.apply context ids document).failure ≠ none) :
    (Stage.safety.apply context ids document).document = document := by
  obtain ⟨hf, hd⟩ := safety_spec context ids document
  obtain ⟨error, he⟩ := Option.ne_none_iff_exists'.1 h
  rw [hd h]
  rw [hf] at he
  split at he
  · cases he
  · obtain ⟨segment, hw, -⟩ := Option.map_eq_some_iff.1 he
    exact Json.write_of_blocked hw

theorem not_rejects {stage : Stage} {error : DocumentError} (hg : stage ≠ .grouping)
    (hs : stage ≠ .safety) : ¬ Rejects context document stage error := by
  intro h
  cases h with
  | missing => exact hg rfl
  | malformed => exact hg rfl
  | noPlace => exact hs rfl

theorem failure_eq_none {stage : Stage} (hg : stage ≠ .grouping) (hs : stage ≠ .safety) :
    (stage.apply context ids document).failure = none := by
  cases stage with
  | envelope => rfl
  | renames => exact (renames_yields context ids document).failure
  | roles => exact (roles_yields context ids document).failure
  | continuation => exact (continuation_yields context ids document).failure
  | links => exact (links_yields context ids document).failure
  | signatures => exact (signatures_yields context ids document).failure
  | grouping => exact absurd rfl hg
  | safety => exact absurd rfl hs

/-- A stage fails for one of the reasons above or not at all, and a document on which it fails is
left as it was. -/
theorem rejected_intact (stage : Stage) (context : Context) (ids : IdSource) (document : Json) :
    (∀ error, (stage.apply context ids document).failure = some error ↔
      Rejects context document stage error) ∧
    ((stage.apply context ids document).failure ≠ none →
      (stage = .grouping ∨ stage = .safety) ∧
        (stage.apply context ids document).document = document) := by
  by_cases hg : stage = .grouping
  · subst hg
    exact ⟨grouping_rejects context ids document, fun h => ⟨.inl rfl, grouping_intact h⟩⟩
  · by_cases hs : stage = .safety
    · subst hs
      exact ⟨safety_rejects context ids document, fun h => ⟨.inr rfl, safety_intact h⟩⟩
    · rw [failure_eq_none hg hs]
      exact ⟨fun error => ⟨nofun, fun h => absurd h (not_rejects hg hs)⟩, fun h => absurd rfl h⟩

end Stage

end Dialogue
