import Dialogue.Proofs.Stage

namespace Dialogue

open Json (modify onField descend? child?)

namespace Conversation

def closed (family : ModelFamily) (turns : List Json) : List Json :=
  if family = .claude then askToContinue turns else turns

def signedTurn (family : ModelFamily) (turn : Json) : Json :=
  if family = .claude then turn else markTurn turn

def signed (family : ModelFamily) (turns : List Json) : List Json := turns.map (signedTurn family)

def grouped (target : Target) (turns : List Json) : List Json :=
  if target.needsGrouping then groupTurns turns else turns

def adapted (family : ModelFamily) (turns : List Json) : List Json :=
  closed family (fillRoles none turns)

theorem adapted_eq (family : ModelFamily) : adapted family = closed family ∘ fillRoles none := rfl

def delivered (target : Target) (family : ModelFamily) (ids : IdSource) (turns : List Json) :
    List Json :=
  grouped target (signed family (Stage.linked ids (adapted family turns)))

end Conversation

def Context.bodyOf (context : Context) (payload : Json) : Json :=
  match context.target.envelopeKey? with
  | none => payload
  | some _ => Body.withoutModel payload

def Context.sealed (context : Context) (body : Json) : Json :=
  match context.target.envelopeKey? with
  | none => body
  | some key => .object [("project", .string context.project), (key, body),
      ("model", .string context.model)]

def Body.delivered (context : Context) (ids : IdSource) (body : Json) : Json :=
  Stage.withSettings context.threshold
    (onField "contents"
      (Json.onItems (Conversation.delivered context.target context.family ids))
      (Body.renamed context body))

theorem Context.sealed_bodyOf (context : Context) (payload : Json) :
    context.sealed (context.bodyOf payload) = Body.wrap context payload := by
  rw [sealed, bodyOf, Body.wrap]
  cases context.target <;> rfl

theorem Context.bodyOf_of_gemini {context : Context} (h : context.target = .gemini)
    (payload : Json) : context.bodyOf payload = payload := by
  rw [bodyOf, h]
  rfl

theorem Context.sealed_of_gemini {context : Context} (h : context.target = .gemini)
    (body : Json) : context.sealed body = body := by
  rw [sealed, h]
  rfl

theorem Context.bodyOf_of_antigravity {context : Context} (h : context.target = .antigravity)
    (payload : Json) : context.bodyOf payload = Body.withoutModel payload := by
  rw [bodyOf, h]
  rfl

theorem Context.sealed_of_antigravity {context : Context} (h : context.target = .antigravity)
    (body : Json) :
    context.sealed body = .object [("project", .string context.project), ("request", body),
      ("model", .string context.model)] := by
  rw [sealed, h]
  rfl

theorem Context.modify_sealed (context : Context) (f : Json → Json) (body : Json) :
    modify f (context.sealed body) context.target.bodyPath = context.sealed (f body) := by
  rw [sealed, sealed, Target.bodyPath]
  cases context.target <;> rfl

theorem Context.descend?_sealed (context : Context) (body : Json) :
    descend? (context.sealed body) context.target.bodyPath = some body := by
  rw [sealed, Target.bodyPath]
  cases context.target <;> rfl

theorem Context.onTurns_eq (context : Context) (f : List Json → List Json) (document : Json) :
    context.onTurns f document =
      modify (onField "contents" (Json.onItems f)) document context.target.bodyPath := by
  rw [onTurns, conversationPath, path, Json.modify_append]
  congr 1
  funext node
  exact Json.modify_field (by decide) ..

def Context.holding (context : Context) (body : Json) (f : List Json → List Json) : Json :=
  context.sealed (onField "contents" (Json.onItems f) body)

theorem Context.onTurns_sealed (context : Context) (f : List Json → List Json) (body : Json) :
    context.onTurns f (context.sealed body) = context.holding body f := by
  rw [onTurns_eq, modify_sealed]
  rfl

theorem Context.onTurns_holding (context : Context) (f g : List Json → List Json) (body : Json) :
    context.onTurns g (context.holding body f) = context.holding body (g ∘ f) := by
  rw [holding, onTurns_sealed, holding, Json.onField_onField, Json.onItems_comp]
  rfl

theorem Context.get?_sealed (context : Context) (body : Json) :
    (context.sealed body).get? context.conversationPath = body.field? "contents" := by
  rw [Json.get?_of_valid _ (Stage.valid_conversationPath context), conversationPath, path,
    Json.descend?_append, descend?_sealed, Option.bind_some]
  cases body with
  | object ms => cases hg : Members.get? "contents" ms <;> simp [descend?, child?, hg]
  | array xs => rfl
  | _ => rfl

theorem Stage.turns?_sealed (context : Context) (body : Json) :
    Stage.turns? context (context.sealed body) = (body.field? "contents").bind Json.items? := by
  rw [Stage.turns?, Context.get?_sealed]

theorem Context.field?_bodyOf {key : String} (hk : key ≠ "model") (context : Context)
    (payload : Json) : (context.bodyOf payload).field? key = payload.field? key := by
  rw [bodyOf]
  split
  · rfl
  · cases payload with
    | object ms => exact Members.get?_erase_of_ne hk ms
    | _ => rfl

theorem Stage.turns?_holding (context : Context) (f : List Json → List Json) (body : Json) :
    Stage.turns? context (context.holding (Body.renamed context body) f) =
      ((body.field? "contents").bind Json.items?).map f := by
  rw [Context.holding, Stage.turns?_sealed, Json.field?_onField_self, Body.field?_renamed_contents]
  cases body.field? "contents" with
  | none => rfl
  | some contents => cases contents <;> rfl

def Outcome.Unlogged (P : Outcome → Prop) : Prop :=
  ∀ outcome events, P outcome → P (outcome.logged events)

namespace Plan

variable {context : Context} {ids ids' : IdSource} {document document' body : Json}
  {f : List Json → List Json} {P : Outcome → Prop} {rest : List Plan}

theorem runAll_stage (hP : Outcome.Unlogged P) {stage : Stage}
    (hrun : stage.appliesTo context = true →
      (stage.apply context ids document).Yields ids' document')
    (hskip : stage.appliesTo context = false → ids' = ids ∧ document' = document)
    (hrest : P (runAll context ids' document' rest)) :
    P (runAll context ids document (.single stage :: rest)) := by
  rw [runAll, appliesTo]
  cases ha : stage.appliesTo context with
  | true =>
    obtain ⟨hf, hi, hd⟩ := hrun ha
    rw [if_pos rfl, run, Outcome.andThen, hf, hi, hd]
    exact hP _ _ hrest
  | false =>
    obtain ⟨rfl, rfl⟩ := hskip ha
    exact hP _ _ hrest

theorem runAll_fails {stage : Stage} {error : DocumentError}
    (ha : stage.appliesTo context = true)
    (h : (stage.apply context ids document).Fails ids' error) :
    (runAll context ids document (.single stage :: rest)).Fails ids' error := by
  rw [runAll, appliesTo, ha, if_pos rfl, run, Outcome.andThen, h.failure]
  exact h

theorem runAll_closed (hP : Outcome.Unlogged P)
    (hrest : P (runAll context ids
      (context.holding body (Conversation.closed context.family ∘ f)) rest)) :
    P (runAll context ids (context.holding body f) (.single .continuation :: rest)) := by
  refine runAll_stage hP (fun ha => ?_) (fun ha => ⟨rfl, ?_⟩) hrest
  · rw [Stage.appliesTo, decide_eq_true_eq] at ha
    have hf : Conversation.closed context.family = Conversation.askToContinue := by
      rw [ha]
      rfl
    rw [hf, ← Context.onTurns_holding]
    exact Stage.continuation_yields ..
  · rw [Stage.appliesTo, decide_eq_false_iff_not] at ha
    have hf : Conversation.closed context.family = id := by
      funext turns
      rw [Conversation.closed, if_neg ha]
      rfl
    rw [hf, Function.id_comp]

theorem runAll_signed (hP : Outcome.Unlogged P)
    (hrest : P (runAll context ids
      (context.holding body (Conversation.signed context.family ∘ f)) rest)) :
    P (runAll context ids (context.holding body f) (.single .signatures :: rest)) := by
  refine runAll_stage hP (fun ha => ?_) (fun ha => ⟨rfl, ?_⟩) hrest
  · rw [Stage.appliesTo, decide_eq_true_eq] at ha
    have hf : Conversation.signed context.family = Conversation.markTurns := by
      funext turns
      exact List.map_congr_left fun turn _ => if_neg ha
    rw [hf, ← Context.onTurns_holding]
    exact Stage.signatures_yields ..
  · rw [Stage.appliesTo, decide_eq_false_iff_not, not_not] at ha
    have hf : Conversation.signed context.family = id := by
      funext turns
      rw [ha]
      exact List.map_id turns
    rw [hf, Function.id_comp]

theorem runAll_adapted (hP : Outcome.Unlogged P)
    (hrest : P (runAll context ids
      (context.holding (Body.renamed context body) (Conversation.adapted context.family)) rest)) :
    P (runAll context ids (context.sealed body)
      (.single .renames :: .single .roles :: .single .continuation :: rest)) := by
  have hrenames := Stage.renames_yields context ids (context.sealed body)
  rw [Context.modify_sealed] at hrenames
  refine runAll_stage hP (fun _ => hrenames) nofun ?_
  have hroles := Stage.roles_yields context ids (context.sealed (Body.renamed context body))
  rw [Context.onTurns_sealed] at hroles
  refine runAll_stage hP (fun _ => hroles) nofun ?_
  apply runAll_closed hP
  rwa [← Conversation.adapted_eq]

theorem runAll_linked (hP : Outcome.Unlogged P)
    (hrest : P (runAll context
      (Stage.linkedIds context ids
        (context.holding (Body.renamed context body) (Conversation.adapted context.family)))
      (context.holding (Body.renamed context body)
        (Stage.linked ids ∘ Conversation.adapted context.family)) rest)) :
    P (runAll context ids (context.sealed body)
      (.single .renames :: .single .roles :: .single .continuation :: .single .links :: rest)) := by
  apply runAll_adapted hP
  have hlinks := Stage.links_yields context ids
    (context.holding (Body.renamed context body) (Conversation.adapted context.family))
  rw [Context.onTurns_holding] at hlinks
  exact runAll_stage hP (fun _ => hlinks) nofun hrest

theorem runAll_conversation (hP : Outcome.Unlogged P)
    (hrest : P (runAll context
      (Stage.linkedIds context ids
        (context.holding (Body.renamed context body) (Conversation.adapted context.family)))
      (context.holding (Body.renamed context body)
        (Conversation.signed context.family ∘ Stage.linked ids ∘
          Conversation.adapted context.family)) rest)) :
    P (runAll context ids (context.sealed body)
      (.single .renames :: .single .roles :: .single .continuation :: .single .links ::
        .single .signatures :: rest)) := by
  apply runAll_linked hP
  exact runAll_signed hP hrest

theorem run_ofStages (context : Context) (ids : IdSource) (document : Json)
    (stages : List Stage) : run context ids document (.ofStages stages) =
      runAll context ids document (stages.map .single) := by rw [ofStages, run]

theorem unlogged_yields (ids : IdSource) (document : Json) :
    Outcome.Unlogged (·.Yields ids document) := fun _ events h => h.logged events

theorem unlogged_fails (ids : IdSource) (error : DocumentError) :
    Outcome.Unlogged (·.Fails ids error) := fun _ events h => h.logged events

theorem runAll_safety (h : body.isObject = true) :
    (runAll context ids (context.sealed body) [.single .safety]).Yields ids
      (context.sealed (Stage.withSettings context.threshold body)) := by
  have hsafety := Stage.safety_yields ids h (Context.descend?_sealed context body)
  rw [Context.modify_sealed] at hsafety
  exact runAll_stage (unlogged_yields _ _) (fun _ => hsafety) nofun ⟨rfl, rfl, rfl⟩

theorem runAll_enveloped (hP : Outcome.Unlogged P) (ht : context.target = .antigravity)
    {payload : Json}
    (hrest : P (runAll context ids (context.sealed (context.bodyOf payload)) rest)) :
    P (runAll context ids payload (.single .envelope :: rest)) := by
  refine runAll_stage hP (fun _ => ⟨rfl, rfl, (context.sealed_bodyOf payload).symm⟩) (fun h => ?_)
    hrest
  rw [Stage.appliesTo, ht] at h
  cases h

end Plan

namespace Normalizer

def idsAfter (family : ModelFamily) (ids : IdSource) (body : Json) : IdSource :=
  match (body.field? "contents").bind Json.items? with
  | none => ids
  | some turns =>
    (Conversation.linkTurns { ids } (Conversation.adapted family turns)).1.ids

theorem linkedIds_holding (context : Context) (ids : IdSource) (body : Json) :
    Stage.linkedIds context ids
        (context.holding (Body.renamed context body) (Conversation.adapted context.family)) =
      idsAfter context.family ids body := by
  rw [Stage.linkedIds, Stage.turns?_holding, idsAfter]
  cases (body.field? "contents").bind Json.items? <;> rfl

theorem isObject_holding {context : Context} {body : Json} {f : List Json → List Json}
    {contents : Json} (hc : body.field? "contents" = some contents) :
    (onField "contents" (Json.onItems f) (Body.renamed context body)).isObject = true := by
  rw [Json.isObject_onField]
  exact Json.isObject_of_field? ((Body.field?_renamed_contents context body).trans hc)

theorem bare_yields {context : Context} (ht : context.target = .gemini) (ids : IdSource)
    {body contents : Json} (hc : body.field? "contents" = some contents) :
    (Plan.run context ids (context.sealed body) (.ofStages Target.gemini.stages)).Yields
      (idsAfter context.family ids body) (context.sealed (Body.delivered context ids body)) := by
  have hg : Conversation.delivered context.target context.family ids =
      Conversation.signed context.family ∘ Stage.linked ids ∘
        Conversation.adapted context.family := by
    funext turns
    rw [Conversation.delivered, Conversation.grouped, ht, if_neg (by decide), Function.comp_apply,
      Function.comp_apply]
  rw [Plan.run_ofStages]
  apply Plan.runAll_conversation (Plan.unlogged_yields _ _)
  rw [linkedIds_holding, Body.delivered, hg]
  exact Plan.runAll_safety (isObject_holding hc)

theorem enveloped_yields {context : Context} (ht : context.target = .antigravity)
    (ids : IdSource) {payload : Json} {turns : List Json}
    (hc : (context.bodyOf payload).field? "contents" = some (.array turns)) :
    (Plan.run context ids payload (.ofStages Target.antigravity.stages)).Yields
      (idsAfter context.family ids (context.bodyOf payload))
      (context.sealed (Body.delivered context ids (context.bodyOf payload))) := by
  have hg : Conversation.delivered context.target context.family ids =
      Conversation.groupTurns ∘ Conversation.signed context.family ∘ Stage.linked ids ∘
        Conversation.adapted context.family := by
    funext turns
    rw [Conversation.delivered, Conversation.grouped, ht, if_pos (by decide), Function.comp_apply,
      Function.comp_apply, Function.comp_apply]
  rw [Plan.run_ofStages]
  apply Plan.runAll_enveloped (Plan.unlogged_yields _ _) ht
  apply Plan.runAll_conversation (Plan.unlogged_yields _ _)
  rw [linkedIds_holding, Body.delivered, hg]
  have hturns := Stage.turns?_holding context (Conversation.signed context.family ∘
    Stage.linked ids ∘ Conversation.adapted context.family) (context.bodyOf payload)
  rw [hc, Option.bind_some, Json.items?, Option.map_some] at hturns
  have hgrouping := Stage.grouping_yields (idsAfter context.family ids (context.bodyOf payload))
    hturns
  rw [Context.onTurns_holding] at hgrouping
  have ha : Stage.grouping.appliesTo context = true := by
    rw [Stage.appliesTo, ht]
    rfl
  apply Plan.runAll_stage (Plan.unlogged_yields _ _) (fun _ => hgrouping)
  · intro h
    rw [ha] at h
    cases h
  · exact Plan.runAll_safety (isObject_holding hc)

theorem enveloped_fails {context : Context} (ht : context.target = .antigravity)
    (ids : IdSource) {payload : Json}
    (hc : ((context.bodyOf payload).field? "contents").bind Json.items? = none) :
    (Plan.run context ids payload (.ofStages Target.antigravity.stages)).Fails ids
      (Stage.noTurns "request.contents" ((context.bodyOf payload).field? "contents")) := by
  have hP := Plan.unlogged_fails ids
    (Stage.noTurns "request.contents" ((context.bodyOf payload).field? "contents"))
  rw [Plan.run_ofStages]
  apply Plan.runAll_enveloped hP ht
  apply Plan.runAll_conversation hP
  have hturns := Stage.turns?_holding context (Conversation.signed context.family ∘
    Stage.linked ids ∘ Conversation.adapted context.family) (context.bodyOf payload)
  rw [hc, Option.map_none] at hturns
  have hids : idsAfter context.family ids (context.bodyOf payload) = ids := by rw [idsAfter, hc]
  have ha : Stage.grouping.appliesTo context = true := by
    rw [Stage.appliesTo, ht]
    rfl
  have hpath : context.conversationPath.text = "request.contents" := by
    rw [Context.conversationPath, Context.path, ht]
    rfl
  have hfails := Stage.grouping_fails ids hturns
  rw [hpath, Context.holding, Context.get?_sealed, Json.field?_onField_self,
    Body.field?_renamed_contents, Stage.noTurns_map] at hfails
  rw [linkedIds_holding, hids]
  exact Plan.runAll_fails ha hfails

theorem has_contents (document : Json) :
    document.has ["contents"] = (document.field? "contents").isSome := by
  rw [Json.has, Json.get?_of_valid document (by decide)]
  cases document with
  | object ms => cases hg : Members.get? "contents" ms <;> simp [descend?, child?, hg]
  | array xs => rfl
  | _ => rfl

variable (n : Normalizer) (requestId model : String) (stream : Bool) (ids : IdSource)
  {payload : Json}

theorem normalize_yields {contents : Json} (hc : payload.field? "contents" = some contents)
    (ha : n.target.needsGrouping = true → ∃ turns, contents = .array turns) :
    (n.normalize (n.context requestId model stream) ids payload).Yields
      (idsAfter (n.context requestId model stream).family ids
        ((n.context requestId model stream).bodyOf payload))
      ((n.context requestId model stream).sealed
        (Body.delivered (n.context requestId model stream) ids
          ((n.context requestId model stream).bodyOf payload))) := by
  have hctx : (n.context requestId model stream).target = n.target := rfl
  generalize n.context requestId model stream = context at hctx ⊢
  have hb : (context.bodyOf payload).field? "contents" = some contents := by
    rw [Context.field?_bodyOf (by decide), hc]
  rw [normalize, has_contents, hc, Option.isSome_some, Bool.not_true, Bool.and_false,
    if_neg Bool.false_ne_true, plan, ← hctx]
  rw [← hctx] at ha
  apply Outcome.Yields.logged
  cases ht : context.target with
  | gemini =>
    have hp : context.sealed (context.bodyOf payload) = payload := by
      rw [Context.sealed, Context.bodyOf, ht]
      rfl
    have hy := bare_yields ht ids hb
    rwa [hp] at hy
  | antigravity =>
    obtain ⟨turns, rfl⟩ := ha (by rw [ht]; rfl)
    exact enveloped_yields ht ids hb

theorem normalize_fails (ht : n.target = .antigravity)
    (hc : (payload.field? "contents").bind Json.items? = none) :
    (n.normalize (n.context requestId model stream) ids payload).Fails ids
      (Stage.noTurns "request.contents" (payload.field? "contents")) := by
  have hctx : (n.context requestId model stream).target = .antigravity := ht
  generalize n.context requestId model stream = context at hctx ⊢
  have hb : (context.bodyOf payload).field? "contents" = payload.field? "contents" :=
    Context.field?_bodyOf (by decide) context payload
  rw [normalize, hctx, plan, ht, ← hb]
  apply Outcome.Fails.logged
  apply enveloped_fails hctx
  rw [hb, hc]

theorem exists_contents_of_result {document : Json}
    (h : (n.normalize (n.context requestId model stream) ids payload).result = .ok document)
    (hrun : n.target = .antigravity ∨ payload.has ["contents"] = true) :
    ∃ contents, payload.field? "contents" = some contents ∧
      (n.target.needsGrouping = true → ∃ turns, contents = .array turns) := by
  cases ht : n.target with
  | gemini =>
    rcases hrun with hrun | hrun
    · rw [ht] at hrun
      cases hrun
    · rw [has_contents] at hrun
      obtain ⟨contents, hc⟩ := Option.isSome_iff_exists.1 hrun
      exact ⟨contents, hc, nofun⟩
  | antigravity =>
    cases hc : (payload.field? "contents").bind Json.items? with
    | none =>
      rw [(normalize_fails n requestId model stream ids ht hc).result] at h
      cases h
    | some turns =>
      exact ⟨.array turns, Json.bind_items?_eq_some.1 hc, fun _ => ⟨turns, rfl⟩⟩

theorem eq_delivered_of_result {document : Json}
    (h : (n.normalize (n.context requestId model stream) ids payload).result = .ok document)
    (hrun : n.target = .antigravity ∨ payload.has ["contents"] = true) :
    document = (n.context requestId model stream).sealed
      (Body.delivered (n.context requestId model stream) ids
        ((n.context requestId model stream).bodyOf payload)) := by
  obtain ⟨contents, hc, ha⟩ := exists_contents_of_result n requestId model stream ids h hrun
  have hy := normalize_yields n requestId model stream ids hc ha
  exact Except.ok.inj (h.symm.trans hy.result)

end Normalizer

end Dialogue
