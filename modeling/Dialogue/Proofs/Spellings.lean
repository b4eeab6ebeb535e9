import Dialogue.Proofs.Json.Moved
import Dialogue.Proofs.Stage

namespace Dialogue

open Json (modify onField Moved FieldBy ItemsBy IsGraph)

namespace Json

variable {node child value : Json}

theorem Distinct.of_child? {segment : String} (h : node.Distinct)
    (hc : child? node segment = some child) : child.Distinct := by
  cases node with
  | object ms => exact h.2.of_get? hc
  | array xs =>
    obtain ⟨i, -, hx⟩ := Option.bind_eq_some_iff.1 hc
    exact DistinctItems.of_mem h (List.mem_of_getElem? hx)
  | _ => cases hc

theorem Distinct.of_descend? {path : Path} (h : node.Distinct)
    (hd : descend? node path = some value) : value.Distinct := by
  induction path generalizing node with
  | nil =>
    cases hd
    exact h
  | cons segment rest ih =>
    obtain ⟨child, hc, hd⟩ := Option.bind_eq_some_iff.1 hd
    exact ih (h.of_child? hc) hd

end Json

namespace Body

/-- A tool, and what it is sent as: first its declarations are renamed, and then the parameters in
each of them, whichever name they came under. -/
def RespelledTool : Json → Json → Prop :=
  Relation.Comp (Moved "functionDeclarations" "function_declarations")
    (FieldBy "function_declarations" (ItemsBy (Moved "parameters" "parametersJsonSchema")))

def RespelledInstruction (context : Context) (body sent : Json) : Prop :=
  if context.target.envelopeKey?.isSome then
    Moved "system_instruction" "systemInstruction" body sent
  else sent = body

def RespelledBody (context : Context) : Json → Json → Prop :=
  Relation.Comp
    (Relation.Comp (FieldBy "tools" (ItemsBy RespelledTool))
      (FieldBy "generationConfig" (Moved "responseSchema" "responseJsonSchema")))
    (RespelledInstruction context)

def RespelledDocument (context : Context) : Json → Json → Prop :=
  match context.target.envelopeKey? with
  | none => RespelledBody context
  | some key => FieldBy key (RespelledBody context)

theorem isGraph_tool : IsGraph RespelledTool renamedTool :=
  (Json.isGraph_moved _ _).comp ((Json.isGraph_moved _ _).itemsBy.fieldBy _)

theorem isGraph_instruction (context : Context) :
    IsGraph (RespelledInstruction context) (renamedInstruction context) := by
  intro body sent
  rw [RespelledInstruction, renamedInstruction]
  split
  · exact Json.isGraph_moved _ _ body sent
  · rfl

theorem isGraph_body (context : Context) :
    IsGraph (RespelledBody context) (renamed context) :=
  ((isGraph_tool.itemsBy.fieldBy "tools").comp ((Json.isGraph_moved _ _).fieldBy _)).comp
    (isGraph_instruction context)

theorem isGraph_document (context : Context) :
    IsGraph (RespelledDocument context) fun document =>
      modify (renamed context) document context.target.bodyPath := by
  intro document sent
  rw [RespelledDocument, Target.bodyPath]
  cases context.target with
  | gemini => exact isGraph_body context document sent
  | antigravity =>
    have hm : modify (renamed context) document ["request"] =
        onField "request" (renamed context) document := Json.modify_field (by decide) ..
    exact ((isGraph_body context).fieldBy "request" document sent).trans (by rw [← hm]; rfl)

theorem renamed_renamed (context : Context) {body : Json} (h : body.Distinct) :
    renamed context (renamed context body) = renamed context body :=
  renamed_of_current (current_renamed context h)

end Body

/-- The renames never fail, use no identifier, and send exactly the document that says the same
under the other names.  A document that repeats no key, as none does that was read, is sent a second
time as it is. -/
theorem Stage.renames_exact (context : Context) (ids : IdSource) (document : Json) :
    (Stage.renames.apply context ids document).failure = none ∧
    (Stage.renames.apply context ids document).ids = ids ∧
    (∀ sent, Body.RespelledDocument context document sent ↔
      sent = (Stage.renames.apply context ids document).document) ∧
    (document.Distinct → ∀ ids',
      (Stage.renames.apply context ids' (Stage.renames.apply context ids document).document).Yields
        ids' (Stage.renames.apply context ids document).document) := by
  have hy := renames_yields context ids document
  refine ⟨hy.failure, hy.ids, fun sent => ?_, fun hd ids' => ?_⟩
  · rw [hy.document]
    exact Body.isGraph_document context document sent
  · have hy' := renames_yields context ids' (Stage.renames.apply context ids document).document
    have hfix : modify (Body.renamed context) (modify (Body.renamed context) document
        context.target.bodyPath) context.target.bodyPath =
        modify (Body.renamed context) document context.target.bodyPath := by
      rw [Json.modify_modify]
      exact Json.modify_congr fun body hb => Body.renamed_renamed context (hd.of_descend? hb)
    rw [hy.document] at hy' ⊢
    rwa [hfix] at hy'

def Body.doublyNamed : Json :=
  .object [("request", .object [
    ("system_instruction", .string "Be brief."),
    ("tools", .array [.null, .object [
      ("functionDeclarations", .array [.object [("parameters", .number "1"), ("name", .null)]]),
      ("function_declarations", .bool false),
      ("parameters", .null)]])])]

def Body.singlyNamed : Json :=
  .object [("request", .object [
    ("tools", .array [.null, .object [
      ("function_declarations", .array [
        .object [("name", .null), ("parametersJsonSchema", .number "1")]]),
      ("parameters", .null)]]),
    ("systemInstruction", .string "Be brief.")])]

theorem Stage.renames_exact_doublyNamed :
    Body.RespelledDocument .enveloping Body.doublyNamed Body.singlyNamed ∧
    (Stage.renames.apply .enveloping .counting Body.singlyNamed).Yields .counting
      Body.singlyNamed := by
  have hs : (Stage.renames.apply .enveloping .counting Body.doublyNamed).document =
    Body.singlyNamed := by rfl
  obtain ⟨-, -, hiff, hagain⟩ := Stage.renames_exact .enveloping .counting Body.doublyNamed
  have hd : Body.doublyNamed.Distinct := by
    simp [Body.doublyNamed, Json.Distinct, Json.DistinctMembers, Json.DistinctItems]
  have hagain := hagain hd .counting
  rw [hs] at hiff hagain
  exact ⟨(hiff _).2 rfl, hagain⟩

end Dialogue
