import Dialogue.Body.Renames
import Dialogue.Proofs.Document.Rename

namespace Dialogue.Body

open Json (modify mapItems moveField onField)

def renamedTool (tool : Json) : Json :=
  onField "function_declarations" (mapItems (moveField "parameters" "parametersJsonSchema"))
    (moveField "functionDeclarations" "function_declarations" tool)

def renamedTools (body : Json) : Json := onField "tools" (mapItems renamedTool) body

def renamedSchema (body : Json) : Json :=
  onField "generationConfig" (moveField "responseSchema" "responseJsonSchema") body

def renamedInstruction (context : Context) (body : Json) : Json :=
  if context.target.envelopeKey?.isSome then
    moveField "system_instruction" "systemInstruction" body
  else body

def renamed (context : Context) (body : Json) : Json :=
  renamedInstruction context (renamedSchema (renamedTools body))

namespace Renaming

def Changes (step : Renaming → Path → Renaming) (f : Json → Json) : Prop :=
  ∀ (r : Renaming) (path : Path), r.failure = none → (∀ segment ∈ path, segment ≠ "") →
    (step r path).failure = none ∧ (step r path).document = modify f r.document path

theorem field_changes {old new : String} (ho : old ≠ "") (hn : new ≠ "")
    (hi : Path.index? old = none) :
    Changes (fun r path => r.field path old new) (moveField old new) := by
  intro r path hr hp
  dsimp only
  rw [field, hr, Json.rename_sibling r.document hp ho hn hi]
  exact ⟨rfl, rfl⟩

theorem toString_ne_empty (i : Nat) : toString i ≠ "" := by
  intro h
  have hi := Path.index?_toString i
  rw [h] at hi
  cases hi

theorem each_changes {step : Renaming → Path → Renaming} {f : Json → Json}
    (h : Changes step f) {key : String} (hk : key ≠ "") (hi : Path.index? key = none) :
    Changes (fun r path => r.each (path ++ [key]) step) (onField key (mapItems f)) := by
  intro r path hr hp
  have hp' : ∀ segment ∈ path ++ [key], segment ≠ "" := by
    intro segment hs
    rcases List.mem_append.1 hs with hs | hs
    · exact hp segment hs
    · rw [List.mem_singleton.1 hs]
      exact hk
  have steps : ∀ (is : List Nat) (r : Renaming), r.failure = none →
      (is.foldl (fun r i => step r (path ++ [key] ++ [toString i])) r).failure = none ∧
      (is.foldl (fun r i => step r (path ++ [key] ++ [toString i])) r).document =
        is.foldl (fun d i => modify f d (path ++ [key] ++ [toString i])) r.document := by
    intro is
    induction is with
    | nil => exact fun r hr => ⟨hr, rfl⟩
    | cons i rest ih =>
      intro r hr
      obtain ⟨hf, hd⟩ := h r (path ++ [key] ++ [toString i]) hr (by
        intro segment hs
        rcases List.mem_append.1 hs with hs | hs
        · exact hp' segment hs
        · rw [List.mem_singleton.1 hs]
          exact toString_ne_empty i)
      rw [List.foldl_cons, List.foldl_cons, ← hd]
      exact ih _ hf
  obtain ⟨hf, hd⟩ := steps (List.range (r.document.lengthAt (path ++ [key]))) r hr
  refine ⟨hf, hd.trans ?_⟩
  rw [Json.foldl_modify_items f r.document (Json.valid_append_singleton hp hk),
    Json.modify_append]
  congr 1
  funext node
  exact Json.modify_field hi ..

theorem Changes.andThen {first second : Renaming → Path → Renaming} {f g : Json → Json}
    (hf : Changes first f) (hg : Changes second g) :
    Changes (fun r path => second (first r path) path) (g ∘ f) := by
  intro r path hr hp
  obtain ⟨hf₁, hf₂⟩ := hf r path hr hp
  obtain ⟨hg₁, hg₂⟩ := hg (first r path) path hf₁ hp
  exact ⟨hg₁, by rw [hg₂, hf₂, Json.modify_modify]⟩

theorem Changes.under {step : Renaming → Path → Renaming} {f : Json → Json} (h : Changes step f)
    {key : String} (hk : key ≠ "") (hi : Path.index? key = none) :
    Changes (fun r path => step r (path ++ [key])) (onField key f) := by
  intro r path hr hp
  obtain ⟨hf, hd⟩ := h r (path ++ [key]) hr (by
    intro segment hs
    rcases List.mem_append.1 hs with hs | hs
    · exact hp segment hs
    · rw [List.mem_singleton.1 hs]
      exact hk)
  refine ⟨hf, hd.trans ?_⟩
  rw [Json.modify_append]
  congr 1
  funext node
  exact Json.modify_field hi ..

theorem tool_changes : Changes tool renamedTool :=
  (field_changes (by decide) (by decide) (by decide)).andThen
    (each_changes (field_changes (by decide) (by decide) (by decide)) (by decide) (by decide))

end Renaming

theorem ne_empty_of_mem_bodyPath (context : Context) :
    ∀ segment ∈ context.target.bodyPath, segment ≠ "" := by
  cases context.target with
  | gemini => nofun
  | antigravity =>
    intro segment hs
    rw [List.mem_singleton.1 hs]
    decide

theorem renameFields_eq (context : Context) (document : Json) :
    (renameFields context document).failure = none ∧
      (renameFields context document).document =
        modify (renamed context) document context.target.bodyPath := by
  have ht : Renaming.Changes (fun r path => r.each (path ++ ["tools"]) Renaming.tool)
      renamedTools := Renaming.each_changes Renaming.tool_changes (by decide) (by decide)
  have hs : Renaming.Changes
      (fun r path => r.field (path ++ ["generationConfig"]) "responseSchema" "responseJsonSchema")
      renamedSchema :=
    (Renaming.field_changes (by decide) (by decide) (by decide)).under (by decide) (by decide)
  have hi : Renaming.Changes
      (fun r path => r.field path "system_instruction" "systemInstruction")
      (moveField "system_instruction" "systemInstruction") :=
    Renaming.field_changes (by decide) (by decide) (by decide)
  have hb := ne_empty_of_mem_bodyPath context
  have hr : renamed context = renamedInstruction context ∘ renamedSchema ∘ renamedTools := rfl
  cases he : context.target.envelopeKey?.isSome with
  | true =>
    have hc : renamedInstruction context = moveField "system_instruction" "systemInstruction" := by
      funext body
      rw [renamedInstruction, he]
      rfl
    rw [renameFields, he, hr, hc, show context.path [] = context.target.bodyPath from
      List.append_nil _]
    exact ((ht.andThen hs).andThen hi) { document } context.target.bodyPath rfl hb
  | false =>
    have hc : renamedInstruction context = id := by
      funext body
      rw [renamedInstruction, he]
      rfl
    rw [renameFields, he, hr, hc]
    exact (ht.andThen hs) { document } context.target.bodyPath rfl hb

theorem field?_renamedInstruction_of_ne {key : String} (ho : key ≠ "system_instruction")
    (hn : key ≠ "systemInstruction") (context : Context) (body : Json) :
    (renamedInstruction context body).field? key = body.field? key := by
  rw [renamedInstruction]
  split
  · exact Json.field?_moveField_of_ne ho hn body
  · rfl

theorem field?_renamed_of_ne {key : String}
    (hk : key ∉ ["tools", "generationConfig", "system_instruction", "systemInstruction"])
    (context : Context) (body : Json) : (renamed context body).field? key = body.field? key := by
  simp only [List.mem_cons, List.not_mem_nil, or_false, not_or] at hk
  rw [renamed, field?_renamedInstruction_of_ne hk.2.2.1 hk.2.2.2, renamedSchema,
    Json.field?_onField_of_ne hk.2.1, renamedTools, Json.field?_onField_of_ne hk.1]

theorem field?_renamed_contents (context : Context) (body : Json) :
    (renamed context body).field? "contents" = body.field? "contents" :=
  field?_renamed_of_ne (by decide) context body

theorem field?_renamed_tools (context : Context) (body : Json) :
    (renamed context body).field? "tools" = (body.field? "tools").map (mapItems renamedTool) := by
  rw [renamed, field?_renamedInstruction_of_ne (by decide) (by decide), renamedSchema,
    Json.field?_onField_of_ne (by decide), renamedTools, Json.field?_onField_self]

theorem field?_renamed_generationConfig (context : Context) (body : Json) :
    (renamed context body).field? "generationConfig" =
      (body.field? "generationConfig").map (moveField "responseSchema" "responseJsonSchema") := by
  rw [renamed, field?_renamedInstruction_of_ne (by decide) (by decide), renamedSchema,
    Json.field?_onField_self, renamedTools, Json.field?_onField_of_ne (by decide)]

structure CurrentTool (tool : Json) : Prop where
  declarations : tool.field? "functionDeclarations" = none
  parameters : ∀ declarations, tool.field? "function_declarations" = some (.array declarations) →
    ∀ declaration ∈ declarations, declaration.field? "parameters" = none

structure Current (context : Context) (body : Json) : Prop where
  tools : ∀ tools, body.field? "tools" = some (.array tools) → ∀ tool ∈ tools, CurrentTool tool
  schema : ∀ config, body.field? "generationConfig" = some config →
    config.field? "responseSchema" = none
  instruction : context.target.envelopeKey?.isSome = true →
    body.field? "system_instruction" = none

theorem Current.congr {context : Context} {body body' : Json} (h : Current context body)
    (hb : ∀ key ∈ ["tools", "generationConfig", "system_instruction"],
      body'.field? key = body.field? key) : Current context body' where
  tools := by
    rw [hb "tools" (by decide)]
    exact h.tools
  schema := by
    rw [hb "generationConfig" (by decide)]
    exact h.schema
  instruction := by
    rw [hb "system_instruction" (by decide)]
    exact h.instruction

theorem exists_of_mapItems_eq {f : Json → Json} {node : Json} {items : List Json}
    (h : mapItems f node = .array items) : ∃ xs, node = .array xs ∧ items = xs.map f := by
  cases node with
  | array xs => cases h; exact ⟨xs, rfl, rfl⟩
  | _ => cases h

theorem currentTool_renamedTool {tool : Json} (h : tool.Distinct) :
    CurrentTool (renamedTool tool) where
  declarations := by
    rw [renamedTool, Json.field?_onField_of_ne (by decide)]
    exact Json.field?_moveField_old (by decide) h.keysDistinct
  parameters := by
    intro declarations hd declaration hm
    rw [renamedTool, Json.field?_onField_self, Json.field?_moveField_new] at hd
    obtain ⟨node, hn, hi⟩ := Option.map_eq_some_iff.1 hd
    have hnode : node.Distinct := by
      rcases Option.or_eq_some_iff.1 hn with hn | ⟨-, hn⟩
      · exact h.of_field? hn
      · exact h.of_field? hn
    obtain ⟨xs, rfl, rfl⟩ := exists_of_mapItems_eq hi
    obtain ⟨x, hx, rfl⟩ := List.mem_map.1 hm
    exact Json.field?_moveField_old (by decide) (Json.DistinctItems.of_mem hnode hx).keysDistinct

theorem current_renamed (context : Context) {body : Json} (h : body.Distinct) :
    Current context (renamed context body) where
  tools := by
    intro tools ht tool hm
    rw [field?_renamed_tools] at ht
    obtain ⟨node, hn, hi⟩ := Option.map_eq_some_iff.1 ht
    obtain ⟨xs, rfl, rfl⟩ := exists_of_mapItems_eq hi
    obtain ⟨x, hx, rfl⟩ := List.mem_map.1 hm
    exact currentTool_renamedTool (Json.DistinctItems.of_mem (h.of_field? hn) hx)
  schema := by
    intro config hc
    rw [field?_renamed_generationConfig] at hc
    obtain ⟨node, hn, rfl⟩ := Option.map_eq_some_iff.1 hc
    exact Json.field?_moveField_old (by decide) (h.of_field? hn).keysDistinct
  instruction := by
    intro he
    rw [renamed, renamedInstruction, if_pos he]
    exact Json.field?_moveField_old (by decide) ((h.keysDistinct.onField ..).onField ..)

theorem renamedTool_of_current {tool : Json} (h : CurrentTool tool) : renamedTool tool = tool := by
  rw [renamedTool, Json.moveField_of_field?_eq_none h.declarations]
  refine Json.onField_of_fixed fun declarations hd => Json.mapItems_of_fixed fun items hi => ?_
  subst hi
  exact fun item hm => Json.moveField_of_field?_eq_none (h.parameters items hd item hm)

theorem renamed_of_current {context : Context} {body : Json} (h : Current context body) :
    renamed context body = body := by
  have ht : renamedTools body = body :=
    Json.onField_of_fixed fun tools hv => Json.mapItems_of_fixed fun items hi => by
      subst hi
      exact fun tool hm => renamedTool_of_current (h.tools items hv tool hm)
  have hs : renamedSchema body = body :=
    Json.onField_of_fixed fun config hv => Json.moveField_of_field?_eq_none (h.schema config hv)
  rw [renamed, ht, hs, renamedInstruction]
  split
  · next he => exact Json.moveField_of_field?_eq_none (h.instruction he)
  · rfl

end Dialogue.Body
