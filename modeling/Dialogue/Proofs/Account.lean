import Dialogue.Proofs.Conversation.Tally
import Dialogue.Proofs.Endings
import Dialogue.Proofs.Except
import Dialogue.Proofs.Log
import Dialogue.Proofs.Session

namespace Dialogue

open Conversation

namespace Event

theorem stage?_of_linked {event : Event} (h : event.message = "Linked tool call ids") :
    event.stage? = some .links := by
  cases event <;> simp [message] at h
  rfl

inductive OfGrouping : String → Prop where
  | droppedTurn : OfGrouping "Dropping conversation turn that is not an object"
  | droppedResponses : OfGrouping "Dropping function responses with no open call turn"
  | grouped : OfGrouping "Grouped function responses"

theorem OfGrouping.stage? {event : Event} {title : String} (ht : OfGrouping title)
    (h : event.message = title) : event.stage? = some .grouping ∧ event.isRepair = false := by
  cases ht <;> cases event <;> simp [message] at h <;> exact ⟨rfl, rfl⟩

end Event

namespace Stage

variable {context : Context} {ids : IdSource} {document : Json} {turns : List Json}

theorem titled_links (h : turns? context document = some turns) (ids : IdSource) :
    Event.titled "Linked tool call ids" (Stage.links.apply context ids document).events =
      let state := (linkTurns { ids } turns).1
      [.linkedIds state.generated state.linked state.unmatched] := by
  rw [links_of_turns? h]
  dsimp only
  rw [logPositive, Event.titled_append]
  split <;> rfl

def groupingLog (turns : List Json) : List Event :=
  List.replicate (turns.countP (!·.isObject)) .droppedTurn ++
    logPositive (Grouper.pushAll {} turns).flush.waiting.length .droppedResponses ++
    [.groupedResponses turns.length (groupTurns turns).length
      (Grouper.pushAll {} turns).flush.groups]

theorem titled_grouping (h : turns? context document = some turns) (ids : IdSource)
    {title : String} (ht : Event.OfGrouping title) :
    Event.titled title (Stage.grouping.apply context ids document).events =
      Event.titled title (groupingLog turns) := by
  have hlog : (Stage.grouping.apply context ids document).events.filter (!·.isRepair) =
      groupingLog turns := by
    rw [grouping_of_turns? h]
    dsimp only
    rw [List.filter_append, Grouper.report_pushAll]
    rfl
  rw [← hlog]
  refine (Event.titled_filter (fun event he => ?_) _).symm
  rw [(ht.stage? he).2]
  rfl

theorem titled_groupingLog (message : String) (turns : List Json) :
    Event.titled message (groupingLog turns) =
      (if "Dropping conversation turn that is not an object" = message then
        List.replicate (turns.countP (!·.isObject)) .droppedTurn else []) ++
      (if "Dropping function responses with no open call turn" = message then
        logPositive (Grouper.pushAll {} turns).flush.waiting.length .droppedResponses else []) ++
      if "Grouped function responses" = message then
        [.groupedResponses turns.length (groupTurns turns).length
          (Grouper.pushAll {} turns).flush.groups] else [] := by
  rw [groupingLog, Event.titled_append, Event.titled_append,
    Event.titled, Event.filter_of_forall fun event hm => by rw [List.eq_of_mem_replicate hm],
    Event.titled, Event.filter_of_forall fun event hm => by rw [eq_of_mem_logPositive hm],
    Event.titled, Event.filter_of_forall fun event hm => by rw [List.mem_singleton.1 hm]]
  rfl

end Stage

namespace Normalizer

variable {n : Normalizer} {requestId model : String} {stream : Bool} {ids left : IdSource}
  {read : Json.Reader} {payload : Json} {turns : List Json}

section

variable {context : Context}

theorem entering_of_yields {stage : Stage} {f : List Json → List Json}
    (hc : payload.field? "contents" = some (.array turns))
    (h : (n.before stage context ids payload).Yields left
      (context.holding (Body.renamed context (context.bodyOf payload)) f)) :
    n.entering stage context ids payload = some (f turns) := by
  rw [entering, h.document, Stage.turns?_holding, Context.field?_bodyOf (by decide), hc]
  rfl

variable (ht : n.target = .antigravity) (hctx : context.target = .antigravity)
  (ids : IdSource) (payload : Json)

include hctx

theorem before_yields {stage : Stage} {document : Json} {rest : List Stage}
    (hstages : n.target.stages.takeWhile (· ≠ stage) = .envelope :: rest)
    (h : (Plan.runAll context ids (context.sealed (context.bodyOf payload))
      (rest.map .single)).Yields left document) :
    (n.before stage context ids payload).Yields left document := by
  rw [before, hstages, Plan.run_ofStages]
  exact Plan.runAll_enveloped (Plan.unlogged_yields _ _) hctx h

include ht

theorem before_links :
    (n.before .links context ids payload).Yields ids
      (context.holding (Body.renamed context (context.bodyOf payload))
        (adapted context.family)) := by
  have hstages : n.target.stages.takeWhile (· ≠ .links) =
      [.envelope, .renames, .roles, .continuation] := by
    rw [ht]
    rfl
  apply before_yields hctx ids payload hstages
  apply Plan.runAll_adapted (Plan.unlogged_yields _ _)
  exact ⟨rfl, rfl, rfl⟩

theorem before_signatures :
    (n.before .signatures context ids payload).Yields
      (idsAfter context.family ids (context.bodyOf payload))
      (context.holding (Body.renamed context (context.bodyOf payload))
        (Stage.linked ids ∘ adapted context.family)) := by
  have hstages : n.target.stages.takeWhile (· ≠ .signatures) =
      [.envelope, .renames, .roles, .continuation, .links] := by
    rw [ht]
    rfl
  apply before_yields hctx ids payload hstages
  apply Plan.runAll_linked (Plan.unlogged_yields _ _)
  rw [linkedIds_holding]
  exact ⟨rfl, rfl, rfl⟩

theorem before_grouping :
    (n.before .grouping context ids payload).Yields
      (idsAfter context.family ids (context.bodyOf payload))
      (context.holding (Body.renamed context (context.bodyOf payload))
        (signed context.family ∘ Stage.linked ids ∘ adapted context.family)) := by
  have hstages : n.target.stages.takeWhile (· ≠ .grouping) =
      [.envelope, .renames, .roles, .continuation, .links, .signatures] := by
    rw [ht]
    rfl
  apply before_yields hctx ids payload hstages
  apply Plan.runAll_conversation (Plan.unlogged_yields _ _)
  rw [linkedIds_holding]
  exact ⟨rfl, rfl, rfl⟩

end

theorem family_context (n : Normalizer) (requestId model : String) (stream : Bool) :
    (n.context requestId model stream).family = ModelFamily.ofModel model := rfl

theorem filter_answer (ht : n.target = .antigravity) {request : Request} {document : Json}
    (hr : read request.body = .ok payload)
    (h : (n.answer requestId ids request read).result = .ok document) {stage : Stage}
    (hs : stage ∈ n.target.stages)
    (ha : stage.appliesTo (n.context requestId request.model request.stream) = true) :
    (n.answer requestId ids request read).events.filter (·.stage? = some stage) =
      let before := n.before stage (n.context requestId request.model request.stream) ids payload
      (stage.apply (n.context requestId request.model request.stream) before.ids
        before.document).events := by
  have hctx : (n.context requestId request.model request.stream).target = .antigravity := ht
  rw [answer, hr] at h ⊢
  dsimp only at h ⊢
  -- Of the context only the target matters from here on.
  generalize n.context requestId request.model request.stream = context at hctx ha h ⊢
  rw [mapError_eq_ok_iff] at h
  have hrun : n.normalize context ids payload = (n.plan.run context ids payload).logged
      [.normalizing context.model context.target context.family] := by
    rw [normalize, hctx]
    rfl
  have hfailure : (n.plan.run context ids payload).failure = none := by
    rw [hrun] at h
    exact Outcome.failure_of_result h
  rw [hrun, ← filter_plan hs ha hfailure]
  rfl

theorem titled_answer (ht : n.target = .antigravity) {request : Request} {document : Json}
    (hr : read request.body = .ok payload)
    (h : (n.answer requestId ids request read).result = .ok document) {stage : Stage}
    {title : String}
    (htitle : ∀ event : Event, event.message = title → event.stage? = some stage)
    (hs : stage ∈ n.target.stages)
    (ha : stage.appliesTo (n.context requestId request.model request.stream) = true) :
    Event.titled title (n.answer requestId ids request read).events =
      let before := n.before stage (n.context requestId request.model request.stream) ids payload
      Event.titled title (stage.apply (n.context requestId request.model request.stream)
        before.ids before.document).events := by
  rw [← Event.titled_filter fun event he => decide_eq_true (htitle event he),
    filter_answer ht hr h hs ha]

theorem role_ne_function {family : ModelFamily} :
    ∀ turn ∈ adapted family turns, Turn.role turn ≠ .function := by
  intro turn hm hrole
  have ho : turn.isObject = true := isObject_of_role hrole (by decide)
  rcases spoken_closed spoken_fillRoles turn hm ho with hs | hs
  · rw [hs] at hrole
    cases hrole
  · rw [hs] at hrole
    cases hrole

section

variable (ht : n.target = .antigravity) {request : Request} {document : Json}
  (hr : read request.body = .ok payload)
  (hc : payload.field? "contents" = some (.array turns))
  (h : (n.answer requestId ids request read).result = .ok document)

include ht hr hc h

theorem linked_accounts (hids : ids.Nonempty) :
    ∃ turns linked generated found unmatched,
      n.entering .links (n.context requestId request.model request.stream) ids payload =
        some turns ∧
      n.entering .signatures (n.context requestId request.model request.stream) ids payload =
        some linked ∧
      Event.titled "Linked tool call ids" (n.answer requestId ids request read).events =
        [.linkedIds generated found unmatched] ∧
      LinkingTally turns linked ids (n.answer requestId ids request read).ids generated found
        unmatched := by
  have hctx : (n.context requestId request.model request.stream).target = .antigravity := ht
  have hlog := titled_answer ht hr h (fun _ => Event.stage?_of_linked) (by rw [ht]; decide) rfl
  have hleft : (n.answer requestId ids request read).ids =
      (linkTurns { ids } (adapted (ModelFamily.ofModel request.model) turns)).1.ids := by
    have hy := normalize_of_turns n requestId request.model request.stream ids hc
    rw [ids_linkTurns, answer, hr]
    exact hy.ids
  have hbefore := before_links ht hctx ids payload
  have hturns := entering_of_yields hc hbefore
  have hlinked := entering_of_yields hc (before_signatures ht hctx ids payload)
  dsimp only at hlog
  rw [hbefore.ids, Stage.titled_links hturns] at hlog
  rw [family_context] at hturns hlinked hlog
  refine ⟨_, _, _, _, _, hturns, hlinked, hlog, ?_⟩
  rw [hleft]
  exact linkingTally hids role_ne_function

theorem grouped_accounts :
    ∃ turns sent groups dropped,
      n.entering .grouping (n.context requestId request.model request.stream) ids payload =
        some turns ∧
      Stage.turns? (n.context requestId request.model request.stream) document = some sent ∧
      Event.titled "Grouped function responses" (n.answer requestId ids request read).events =
        [.groupedResponses turns.length sent.length groups] ∧
      Event.titled "Dropping function responses with no open call turn"
          (n.answer requestId ids request read).events =
        Stage.logPositive dropped .droppedResponses ∧
      Event.titled "Dropping conversation turn that is not an object"
          (n.answer requestId ids request read).events =
        List.replicate (turns.countP (!·.isObject)) .droppedTurn ∧
      GroupingTally turns sent groups dropped := by
  have hctx : (n.context requestId request.model request.stream).target = .antigravity := ht
  have hturns := entering_of_yields hc (before_grouping ht hctx ids payload)
  rw [family_context, Function.comp_apply, Function.comp_apply] at hturns
  have hsent : Stage.turns? (n.context requestId request.model request.stream) document =
      some (groupTurns (signed (ModelFamily.ofModel request.model)
        (Stage.linked ids (adapted (ModelFamily.ofModel request.model) turns)))) := by
    rw [result_answer_of_ok n requestId ids hr, mapError_eq_ok_iff] at h
    obtain ⟨other, hother, hsent⟩ :=
      sent_of_turns n requestId request.model request.stream ids payload hc
    cases hother.symm.trans h
    rw [hsent, ht, delivered, grouped, if_pos (by decide)]
  -- The log speaks of the turns that grouping is given, however they came about.
  generalize signed (ModelFamily.ofModel request.model) (Stage.linked ids
    (adapted (ModelFamily.ofModel request.model) turns)) = marked at hturns hsent
  have hlog : ∀ title, Event.OfGrouping title →
      Event.titled title (n.answer requestId ids request read).events =
        Event.titled title (Stage.groupingLog marked) := by
    intro title htitle
    rw [titled_answer ht hr h (fun _ he => (htitle.stage? he).1) (by rw [ht]; decide)
      (by rw [Stage.appliesTo, hctx]; rfl)]
    exact Stage.titled_grouping hturns _ htitle
  refine ⟨_, _, _, _, hturns, hsent, ?_, ?_, ?_, groupingTally _⟩
  · rw [hlog _ .grouped, Stage.titled_groupingLog, if_neg (by decide), if_neg (by decide),
      if_pos rfl]
    rfl
  · rw [hlog _ .droppedResponses, Stage.titled_groupingLog, if_neg (by decide), if_pos rfl,
      if_neg (by decide), List.append_nil]
    rfl
  · rw [hlog _ .droppedTurn, Stage.titled_groupingLog, if_pos rfl, if_neg (by decide),
      if_neg (by decide), List.append_nil, List.append_nil]

end

/-- Every counter in the log of an enveloped request that is answered says how many there are of
what it counts: of the identifiers that were drawn, of the user's responses without one, of the
groups and of the turns sent, of the responses that found no group, and of the turns that are no
objects. -/
theorem log_accounts (ht : n.target = .antigravity) (hids : ids.Nonempty) {request : Request}
    {document : Json} (h : (n.answer requestId ids request read).result = .ok document) :
    ∃ payload, read request.body = .ok payload ∧
      (∃ turns linked generated found unmatched,
        n.entering .links (n.context requestId request.model request.stream) ids payload =
          some turns ∧
        n.entering .signatures (n.context requestId request.model request.stream) ids payload =
          some linked ∧
        Event.titled "Linked tool call ids" (n.answer requestId ids request read).events =
          [.linkedIds generated found unmatched] ∧
        LinkingTally turns linked ids (n.answer requestId ids request read).ids generated found
          unmatched) ∧
      ∃ turns sent groups dropped,
        n.entering .grouping (n.context requestId request.model request.stream) ids payload =
          some turns ∧
        Stage.turns? (n.context requestId request.model request.stream) document = some sent ∧
        Event.titled "Grouped function responses" (n.answer requestId ids request read).events =
          [.groupedResponses turns.length sent.length groups] ∧
        Event.titled "Dropping function responses with no open call turn"
            (n.answer requestId ids request read).events =
          Stage.logPositive dropped .droppedResponses ∧
        Event.titled "Dropping conversation turn that is not an object"
            (n.answer requestId ids request read).events =
          List.replicate (turns.countP (!·.isObject)) .droppedTurn ∧
        GroupingTally turns sent groups dropped := by
  obtain ⟨payload, hr, hnormal⟩ := exists_payload_of_answer n requestId ids h
  obtain ⟨contents, hc, harray⟩ :=
    exists_contents_of_result n requestId _ _ ids hnormal (.inl ht)
  obtain ⟨turns, rfl⟩ := harray (by rw [ht]; rfl)
  exact ⟨payload, hr, linked_accounts ht hr hc h hids, grouped_accounts ht hr hc h⟩

end Normalizer

def Request.oddRound : Request where
  model := "gemini"
  body := Json.bytesOf (Json.compact (.object [("contents", .array [
    .null, Turn.calling [none], Turn.replying [none, none]])]))

theorem Normalizer.log_accounts_oddRound :
    ∃ document turns linked marked sent,
      (answer { target := .antigravity } "" .counting .oddRound).result = .ok document ∧
      Stage.turns? (context { target := .antigravity } "" "gemini" false) document = some sent ∧
      LinkingTally turns linked .counting
        (answer { target := .antigravity } "" .counting .oddRound).ids 1 1 1 ∧
      marked.length = 3 ∧ sent.length = 2 ∧ marked.countP (!·.isObject) = 1 ∧
      GroupingTally marked sent 1 1 := by
  have hlog : (answer { target := .antigravity } "" .counting .oddRound).events =
      [.normalizing "gemini" .antigravity .other, .stageSkipped "prefill", .linkedIds 1 1 1,
        .markedSignatures 1, .droppedTurn, .droppedResponses 1, .groupedResponses 3 2 1,
        .attachedSettings .off] := by decide +kernel
  have hok : (answer { target := .antigravity } "" .counting .oddRound).result.isOk = true := by
    decide +kernel
  cases hr : (answer { target := .antigravity } "" .counting .oddRound).result with
  | error error =>
    rw [hr] at hok
    cases hok
  | ok document =>
    obtain ⟨payload, -, ⟨turns, linked, generated, found, unmatched, -, -, hlinked, hlinking⟩,
      marked, sent, groups, dropped, -, hsent, hgrouped, hdropped, hodd, hgrouping⟩ :=
      log_accounts rfl IdSource.nonempty_counting hr
    rw [hlog] at hlinked hgrouped hdropped hodd
    cases (hlinked : [Event.linkedIds 1 1 1] = _)
    obtain ⟨hmarked, hlength, rfl⟩ := Event.groupedResponses.inj (List.cons.inj hgrouped).1
    have hone : dropped = 1 := by
      rw [Stage.logPositive] at hdropped
      split at hdropped
      · cases hdropped
      · cases hdropped
        rfl
    have hcount := congrArg List.length hodd
    rw [List.length_replicate] at hcount
    rw [hone] at hgrouping
    exact ⟨document, turns, linked, marked, sent, rfl, hsent, hlinking, hmarked.symm,
      hlength.symm, hcount.symm, hgrouping⟩

end Dialogue
