import Dialogue.Normalizer
import Dialogue.Proofs.Body.Renames

namespace Dialogue

open Json (modify onField descend? child?)

def Context.bare : Context := { requestId := "", model := "gemini", target := .gemini }

def Context.enveloping : Context := { Context.bare with target := .antigravity }

structure Outcome.Yields (outcome : Outcome) (ids : IdSource) (document : Json) : Prop where
  failure : outcome.failure = none
  ids : outcome.ids = ids
  document : outcome.document = document

theorem Outcome.Yields.logged {outcome : Outcome} {ids : IdSource} {document : Json}
    (h : outcome.Yields ids document) (events : List Event) :
    (outcome.logged events).Yields ids document := ⟨h.failure, h.ids, h.document⟩

theorem Outcome.Yields.result {outcome : Outcome} {ids : IdSource} {document : Json}
    (h : outcome.Yields ids document) : outcome.result = .ok document := by
  rw [Outcome.result, h.failure, h.document]

structure Outcome.Fails (outcome : Outcome) (ids : IdSource) (error : DocumentError) : Prop where
  failure : outcome.failure = some error
  ids : outcome.ids = ids

theorem Outcome.Fails.logged {outcome : Outcome} {ids : IdSource} {error : DocumentError}
    (h : outcome.Fails ids error) (events : List Event) :
    (outcome.logged events).Fails ids error := ⟨h.failure, h.ids⟩

theorem Outcome.Fails.result {outcome : Outcome} {ids : IdSource} {error : DocumentError}
    (h : outcome.Fails ids error) : outcome.result = .error error := by
  rw [Outcome.result, h.failure]

def Json.onItems (f : List Json → List Json) : Json → Json
  | .array xs => .array (f xs)
  | other => other

theorem Json.onItems_comp (f g : List Json → List Json) :
    Json.onItems g ∘ Json.onItems f = Json.onItems (g ∘ f) := by
  funext node
  cases node <;> rfl

theorem Json.onField_onItems_of_no_items {key : String} {node : Json}
    (h : (node.field? key).bind Json.items? = none) (f : List Json → List Json) :
    onField key (Json.onItems f) node = node := by
  rw [onField]
  split
  · next value hv =>
    rw [hv] at h
    cases value with
    | array xs => cases h
    | _ => exact Json.putField_of_field? hv
  · rfl

def Context.onTurns (context : Context) (f : List Json → List Json) (document : Json) : Json :=
  modify (Json.onItems f) document context.conversationPath

theorem Context.onTurns_onTurns (context : Context) (f g : List Json → List Json)
    (document : Json) : context.onTurns g (context.onTurns f document) =
      context.onTurns (g ∘ f) document := by
  rw [onTurns, onTurns, Json.modify_modify, Json.onItems_comp, onTurns]

namespace Stage

variable {context : Context} {ids : IdSource} {document : Json} {turns : List Json}

theorem valid_conversationPath (context : Context) : context.conversationPath.valid = true := by
  rw [Context.conversationPath, Context.path]
  cases context.target <;> decide

theorem turns?_eq (context : Context) (document : Json) :
    turns? context document = (descend? document context.conversationPath).bind Json.items? := by
  rw [turns?, Json.get?_of_valid document (valid_conversationPath context)]

theorem descend?_of_turns? (h : turns? context document = some turns) :
    descend? document context.conversationPath = some (.array turns) := by
  rw [turns?_eq] at h
  exact Json.bind_items?_eq_some.1 h

theorem replace?_turns (h : turns? context document = some turns) (f : List Json → List Json) :
    document.replace? context.conversationPath (.array (f turns)) =
      some (context.onTurns f document) := by
  rw [Json.replace?, if_pos (valid_conversationPath context), Json.exchange?_eq,
    descend?_of_turns? h, Option.map_some]
  apply congrArg some
  apply Json.modify_congr
  intro n hn
  rw [descend?_of_turns? h] at hn
  cases hn
  rfl

theorem withTurns_eq (h : turns? context document = some turns) (f : List Json → List Json) :
    withTurns context document (f turns) = context.onTurns f document := by
  rw [withTurns, replace?_turns h, Option.getD_some]

theorem turns?_eq_some_iff :
    turns? context document = some turns ↔
      document.get? context.conversationPath = some (.array turns) := Json.bind_items?_eq_some

theorem turns?_eq_none_iff :
    turns? context document = none ↔
      ∀ turns, document.get? context.conversationPath ≠ some (.array turns) :=
  Json.bind_items?_eq_none

theorem onTurns_of_turns?_eq_none (h : turns? context document = none)
    (f : List Json → List Json) : context.onTurns f document = document := by
  apply Json.modify_of_fixed
  intro n hn
  rw [turns?_eq, hn] at h
  cases n with
  | array xs => cases h
  | _ => rfl

theorem onTurns_of_fixed {f : List Json → List Json}
    (h : ∀ turns, turns? context document = some turns → f turns = turns) :
    context.onTurns f document = document := by
  cases ht : turns? context document with
  | none => exact onTurns_of_turns?_eq_none ht f
  | some turns =>
    apply Json.modify_of_fixed
    intro n hn
    rw [descend?_of_turns? ht] at hn
    cases hn
    exact congrArg Json.array (h turns ht)

theorem turns?_onTurns (h : turns? context document = some turns) (f : List Json → List Json) :
    turns? context (context.onTurns f document) = some (f turns) := by
  rw [turns?_eq, Context.onTurns, Json.descend?_modify, descend?_of_turns? h]
  rfl

theorem roles_yields (context : Context) (ids : IdSource) (document : Json) :
    (Stage.roles.apply context ids document).Yields ids
      (context.onTurns (Conversation.fillRoles none) document) := by
  rw [Stage.apply, fillRoles]
  cases ht : turns? context document with
  | none => exact ⟨rfl, rfl, (onTurns_of_turns?_eq_none ht _).symm⟩
  | some turns => exact ⟨rfl, rfl, withTurns_eq ht _⟩

theorem continuation_yields (context : Context) (ids : IdSource) (document : Json) :
    (Stage.continuation.apply context ids document).Yields ids
      (context.onTurns Conversation.askToContinue document) := by
  rw [Stage.apply, askToContinue]
  cases ht : turns? context document with
  | none => exact ⟨rfl, rfl, (onTurns_of_turns?_eq_none ht _).symm⟩
  | some turns =>
    dsimp only
    cases hl : Conversation.lastUnfinished? turns with
    | none =>
      refine ⟨rfl, rfl, (onTurns_of_fixed fun turns' ht' => ?_).symm⟩
      rw [ht] at ht'
      cases ht'
      rw [Conversation.askToContinue, hl]
    | some text => exact ⟨rfl, rfl, withTurns_eq ht _⟩

def linkedIds (context : Context) (ids : IdSource) (document : Json) : IdSource :=
  match turns? context document with
  | none => ids
  | some turns => (Conversation.linkTurns { ids } turns).1.ids

def linked (ids : IdSource) (turns : List Json) : List Json :=
  (Conversation.linkTurns { ids } turns).2

theorem links_of_turns? (h : turns? context document = some turns) (ids : IdSource) :
    Stage.links.apply context ids document =
      let state := (Conversation.linkTurns { ids } turns).1
      { document := context.onTurns (linked ids) document
        ids := state.ids
        events := logPositive state.malformed .skippedCalls ++
          [.linkedIds state.generated state.linked state.unmatched] } := by
  rw [Stage.apply, linkCalls, h, ← withTurns_eq h (linked ids)]
  rfl

theorem links_yields (context : Context) (ids : IdSource) (document : Json) :
    (Stage.links.apply context ids document).Yields (linkedIds context ids document)
      (context.onTurns (linked ids) document) := by
  rw [Stage.apply, linkCalls, linkedIds]
  cases ht : turns? context document with
  | none => exact ⟨rfl, rfl, (onTurns_of_turns?_eq_none ht _).symm⟩
  | some turns => exact ⟨rfl, rfl, withTurns_eq ht (linked ids)⟩

theorem signatures_of_turns? (h : turns? context document = some turns) (ids : IdSource) :
    Stage.signatures.apply context ids document =
      { document := context.onTurns Conversation.markTurns document
        ids
        events := logPositive (Conversation.countMarks turns) .markedSignatures } := by
  rw [Stage.apply, markSignatures, h, ← withTurns_eq h Conversation.markTurns]

theorem signatures_yields (context : Context) (ids : IdSource) (document : Json) :
    (Stage.signatures.apply context ids document).Yields ids
      (context.onTurns Conversation.markTurns document) := by
  rw [Stage.apply, markSignatures]
  cases ht : turns? context document with
  | none => exact ⟨rfl, rfl, (onTurns_of_turns?_eq_none ht _).symm⟩
  | some turns => exact ⟨rfl, rfl, withTurns_eq ht _⟩

theorem grouping_of_turns? (h : turns? context document = some turns) (ids : IdSource) :
    Stage.grouping.apply context ids document =
      let grouper := Conversation.Grouper.pushAll {} turns
      { document := context.onTurns Conversation.groupTurns document
        ids
        events := grouper.report ++
          [.groupedResponses turns.length grouper.finish.length grouper.flush.groups] } := by
  rw [Stage.apply, groupResponses, turns?_eq_some_iff.1 h, ← withTurns_eq h]
  rfl

theorem grouping_yields (ids : IdSource) (h : turns? context document = some turns) :
    (Stage.grouping.apply context ids document).Yields ids
      (context.onTurns Conversation.groupTurns document) := by
  have hg : document.get? context.conversationPath = some (.array turns) := by
    rw [Json.get?_of_valid document (valid_conversationPath context), descend?_of_turns? h]
  rw [Stage.apply, groupResponses, hg]
  exact ⟨rfl, rfl, withTurns_eq h Conversation.groupTurns⟩

def noTurns (path : String) : Option Json → DocumentError
  | none => .missingConversation path
  | some _ => .malformedConversation path

theorem noTurns_map (path : String) (f : Json → Json) (contents : Option Json) :
    noTurns path (contents.map f) = noTurns path contents := by
  cases contents <;> rfl

theorem grouping_fails (ids : IdSource) (h : turns? context document = none) :
    (Stage.grouping.apply context ids document).Fails ids
      (noTurns context.conversationPath.text (document.get? context.conversationPath)) := by
  rw [turns?] at h
  rw [Stage.apply, groupResponses]
  cases hg : document.get? context.conversationPath with
  | none => exact ⟨rfl, rfl⟩
  | some node =>
    rw [hg] at h
    cases node with
    | array xs => cases h
    | _ => exact ⟨rfl, rfl⟩

theorem renames_yields (context : Context) (ids : IdSource) (document : Json) :
    (Stage.renames.apply context ids document).Yields ids
      (modify (Body.renamed context) document context.target.bodyPath) := by
  obtain ⟨hf, hd⟩ := Body.renameFields_eq context document
  rw [Stage.apply, renameFields, hf]
  exact ⟨rfl, rfl, hd⟩

def withSettings (threshold : Threshold) (body : Json) : Json :=
  if (body.field? "safetySettings").isSome then body
  else body.putField "safetySettings" threshold.settings

theorem safety_yields (ids : IdSource) {body : Json} (ho : body.isObject = true)
    (h : descend? document context.target.bodyPath = some body) :
    (Stage.safety.apply context ids document).Yields ids
      (modify (withSettings context.threshold) document context.target.bodyPath) := by
  have hv : (context.path ["safetySettings"]).valid = true :=
    Json.valid_append_singleton (Body.ne_empty_of_mem_bodyPath context) (by decide)
  have hc : modify (withSettings context.threshold) document context.target.bodyPath =
      modify (fun _ => withSettings context.threshold body) document context.target.bodyPath :=
    Json.modify_congr fun n hn => by rw [h] at hn; cases hn; rfl
  have hs : descend? document (context.path ["safetySettings"]) = body.field? "safetySettings" := by
    rw [Context.path, Json.descend?_append, h, Option.bind_some]
    cases body with
    | object ms => cases hg : Members.get? "safetySettings" ms <;> simp [descend?, child?, hg]
    | _ => cases ho
  rw [Stage.apply, attachSettings, Json.has, Json.get?_of_valid document hv, hs, hc, withSettings]
  cases hb : (body.field? "safetySettings").isSome with
  | true =>
    have hfix : modify (fun _ => body) document context.target.bodyPath = document :=
      Json.modify_of_fixed fun n hn => by rw [h] at hn; cases hn; rfl
    exact ⟨rfl, rfl, hfix.symm⟩
  | false =>
    cases body with
    | object ms =>
      rw [Json.set, if_pos hv, Context.path, Json.write_append _ h rfl]
      exact ⟨rfl, rfl, rfl⟩
    | _ => cases ho

end Stage

end Dialogue
