import Dialogue.Proofs.Except
import Dialogue.Settings

namespace Dialogue.Settings

variable {environment : Environment} {path text : String} {base other : Settings}
  {error : SettingsError}

section

variable {α : Type} {name : String} {fallback : α} {parse : String → Except UnknownName α}

theorem override_of_none (h : environment name = none) :
    override environment name fallback parse = .ok fallback := by
  rw [override, h]

theorem override_of_some (h : environment name = some text) :
    override environment name fallback parse =
      (parse text).mapError (.invalidVariable name text) := by
  rw [override, h]

theorem override_eq_map (environment : Environment) (name : String) (fallback other : α)
    (parse : String → Except UnknownName α) :
    override environment name fallback parse =
      (override environment name other parse).map fun value =>
        if (environment name).isSome then value else fallback := by
  cases h : environment name with
  | none => simp [override_of_none h, Except.map]
  | some text =>
    rw [override_of_some h, override_of_some h]
    cases parse text <;> rfl

theorem override_eq_error_iff :
    override environment name fallback parse = .error error ↔
      ∃ text cause, environment name = some text ∧ parse text = .error cause ∧
        error = .invalidVariable name text cause := by
  cases h : environment name with
  | none => simp [override_of_none h]
  | some text => simp [override_of_some h, mapError_eq_error_iff]

theorem exists_override_iff :
    (∃ value, override environment name fallback parse = .ok value) ↔
      ∀ text, environment name = some text → ∃ value, parse text = .ok value := by
  cases h : environment name with
  | none => simp [override_of_none h]
  | some text => simp [override_of_some h, mapError_eq_ok_iff]

end

inductive Refused (environment : Environment) : SettingsError → Prop where
  | target {text : String} {cause : UnknownName} (h : environment targetVariable = some text)
      (hp : Target.parse text = .error cause) :
      Refused environment (.invalidVariable targetVariable text cause)
  | threshold {text : String} {cause : UnknownName}
      (ht : ∀ text, environment targetVariable = some text →
        ∃ target, Target.parse text = .ok target)
      (h : environment thresholdVariable = some text) (hp : Threshold.parse text = .error cause) :
      Refused environment (.invalidVariable thresholdVariable text cause)

def overlay (environment : Environment) (base given : Settings) : Settings where
  target := if (environment targetVariable).isSome then given.target else base.target
  project := if (environment projectVariable).isSome then given.project else base.project
  threshold := if (environment thresholdVariable).isSome then given.threshold else base.threshold

theorem overrideAll_eq_map (environment : Environment) (base : Settings) :
    overrideAll environment base = (ofEnvironment environment).map (overlay environment base) := by
  let default : Settings := {}
  rw [ofEnvironment, overrideAll, overrideAll,
    override_eq_map environment targetVariable base.target default.target,
    override_eq_map environment projectVariable base.project default.project,
    override_eq_map environment thresholdVariable base.threshold default.threshold]
  cases override environment targetVariable default.target Target.parse with
  | error => rfl
  | ok target =>
    cases override environment projectVariable default.project .ok with
    | error => rfl
    | ok project =>
      cases override environment thresholdVariable default.threshold Threshold.parse <;> rfl

theorem overrideAll_eq_error_iff : overrideAll environment base = .error error ↔
    override environment targetVariable base.target Target.parse = .error error ∨
      (∃ target, override environment targetVariable base.target Target.parse = .ok target) ∧
        override environment thresholdVariable base.threshold Threshold.parse = .error error := by
  obtain ⟨project, hp⟩ : ∃ project,
      override environment projectVariable base.project .ok = .ok project :=
    exists_override_iff.2 fun text _ => ⟨text, rfl⟩
  rw [overrideAll, hp]
  cases override environment targetVariable base.target Target.parse with
  | error => simp [bind, Except.bind]
  | ok target =>
    cases override environment thresholdVariable base.threshold Threshold.parse <;>
      simp [bind, Except.bind, pure, Except.pure]

theorem ofEnvironment_eq_error_iff :
    ofEnvironment environment = .error error ↔ Refused environment error := by
  rw [ofEnvironment, overrideAll_eq_error_iff, override_eq_error_iff, override_eq_error_iff,
    exists_override_iff]
  constructor
  · rintro (⟨text, cause, h, hp, rfl⟩ | ⟨ht, text, cause, h, hp, rfl⟩)
    · exact .target h hp
    · exact .threshold ht h hp
  · rintro (⟨h, hp⟩ | ⟨ht, h, hp⟩)
    · exact .inl ⟨_, _, h, hp, rfl⟩
    · exact .inr ⟨ht, _, _, h, hp, rfl⟩

inductive Gives (parse : Parser) (environment : Environment) (text : String) : Settings → Prop where
  | blank (h : Text.isAllBlank (Template.expand environment text) = true) :
      Gives parse environment text {}
  | parsed {base : Settings} (h : Text.isAllBlank (Template.expand environment text) = false)
      (hy : parse (Template.expand environment text) = some base) :
      Gives parse environment text base

structure SameUnset (environment : Environment) (base other : Settings) : Prop where
  target : environment targetVariable = none → other.target = base.target
  project : environment projectVariable = none → other.project = base.project
  threshold : environment thresholdVariable = none → other.threshold = base.threshold

theorem SameUnset.overlay_eq (h : SameUnset environment base other) :
    overlay environment other = overlay environment base := by
  funext given
  obtain ⟨ht, hp, hs⟩ := h
  simp only [overlay, mk.injEq]
  refine ⟨?_, ?_, ?_⟩
  · cases he : environment targetVariable <;> simp [ht, he]
  · cases he : environment projectVariable <;> simp [hp, he]
  · cases he : environment thresholdVariable <;> simp [hs, he]

variable {parse : Parser}

theorem load_of_not_parsed (path : String)
    (hb : Text.isAllBlank (Template.expand environment text) = false)
    (hy : parse (Template.expand environment text) = none) :
    load environment path (some text) parse = .error (.malformedFile path) := by
  simp [load, ofText, hb, hy]

theorem load_of_gives (path : String) (h : Gives parse environment text base) :
    load environment path (some text) parse = overrideAll environment base := by
  cases h with
  | blank h => simp [load, ofText, h]
  | parsed h hy => simp [load, ofText, h, hy]

/-- Whatever the file gives, variables are refused as without it and decide their fields. -/
theorem load_agrees (parse : Parser) (environment : Environment) (path text : String) :
    (Text.isAllBlank (Template.expand environment text) = false →
      parse (Template.expand environment text) = none →
        load environment path (some text) parse = .error (.malformedFile path)) ∧
      (∀ base, Gives parse environment text base →
        (∀ error, load environment path (some text) parse = .error error ↔
          ofEnvironment environment = .error error) ∧
        (∀ settings, load environment path (some text) parse = .ok settings ↔
          ∃ given, ofEnvironment environment = .ok given ∧
            settings = overlay environment base given) ∧
        ∀ otherPath otherText other, Gives parse environment otherText other →
          SameUnset environment base other →
            load environment otherPath (some otherText) parse =
              load environment path (some text) parse) ∧
      (Text.isAllBlank (Template.expand environment text) = true →
        load environment path (some text) parse = ofEnvironment environment) ∧
      ∀ error, ofEnvironment environment = .error error ↔ Refused environment error := by
  refine ⟨load_of_not_parsed path, fun base hb => ?_, fun hb => load_of_gives path (.blank hb),
    fun error => ofEnvironment_eq_error_iff⟩
  have hload := load_of_gives path hb
  rw [overrideAll_eq_map] at hload
  refine ⟨fun error => ?_, fun settings => ?_, fun otherPath otherText other ho hs => ?_⟩
  · rw [hload, map_eq_error_iff]
  · rw [hload, map_eq_ok_iff]
  · rw [hload, load_of_gives otherPath ho, overrideAll_eq_map, hs.overlay_eq]

def enveloping : Environment := .ofList [(targetVariable, " Antigravity ")]

theorem load_enveloping :
    ∃ given, ofEnvironment enveloping = .ok given ∧
      load enveloping "settings.yaml" (some "project: $\x7bP:-x\x7d\ntarget: gemini\n") =
        .ok (overlay enveloping { target := .gemini, project := "x" } given) ∧
      overlay enveloping { target := .gemini, project := "x" } given = { project := "x" } := by
  have hb : Gives ofYaml enveloping "project: $\x7bP:-x\x7d\ntarget: gemini\n"
      { target := .gemini, project := "x" } :=
    .parsed (by decide +kernel) (by decide +kernel)
  have hs : ofEnvironment enveloping = .ok {} := by rfl
  exact ⟨{}, hs,
    (((load_agrees ofYaml enveloping "settings.yaml" _).2.1 _ hb).2.1 _).2 ⟨{}, hs, rfl⟩, rfl⟩

end Dialogue.Settings
