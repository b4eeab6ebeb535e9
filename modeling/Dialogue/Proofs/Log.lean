import Dialogue.Proofs.Grouping.Tally
import Dialogue.Proofs.Plan

namespace Dialogue

namespace Event

def stage? : Event → Option Stage
  | .normalizing .. | .noConversation | .stageSkipped _ => none
  | .renamedFields _ => some .renames
  | .filledRoles _ => some .roles
  | .replacedLastTurn _ => some .continuation
  | .skippedCalls _ | .linkedIds .. => some .links
  | .markedSignatures _ => some .signatures
  | .droppedTurn | .repairedResponse | .replacedResponse | .droppedResponses _
  | .groupedResponses .. => some .grouping
  | .attachedSettings _ => some .safety

def titled (message : String) (events : List Event) : List Event :=
  events.filter (·.message = message)

theorem titled_append (message : String) (front back : List Event) :
    titled message (front ++ back) = titled message front ++ titled message back :=
  List.filter_append ..

theorem filter_of_forall {α : Type} [DecidableEq α] {f : Event → α} {a : α} {events : List Event}
    (h : ∀ event ∈ events, f event = a) (b : α) :
    events.filter (f · = b) = if a = b then events else [] := by
  split
  · next he => exact List.filter_eq_self.2 fun event hm => decide_eq_true ((h event hm).trans he)
  · next hne =>
    refine List.filter_eq_nil_iff.2 fun event hm => ?_
    rw [h event hm, decide_eq_true_iff]
    exact hne

theorem titled_filter {message : String} {p : Event → Bool}
    (h : ∀ event : Event, event.message = message → p event = true) (events : List Event) :
    titled message (events.filter p) = titled message events := by
  rw [titled, List.filter_filter]
  refine List.filter_congr fun event _ => ?_
  exact Bool.and_eq_left_iff_imp.2 fun hm => h event (of_decide_eq_true hm)

end Event

namespace Stage

variable {context : Context} {ids : IdSource} {document : Json} {event : Event} {stage : Stage}

theorem eq_of_mem_logPositive {n : Nat} {f : Nat → Event} (h : event ∈ logPositive n f) :
    event = f n := by
  rw [logPositive] at h
  split at h
  · cases h
  · exact List.mem_singleton.1 h

theorem stage?_of_mem_report {turns : List Json}
    (h : event ∈ (Conversation.Grouper.pushAll {} turns).report) :
    event.stage? = some .grouping := by
  cases hr : event.isRepair with
  | true => cases event <;> first | rfl | cases hr
  | false =>
    -- Besides the repairs the report holds nothing but warnings, and those are known.
    have hm : event ∈ (Conversation.Grouper.pushAll {} turns).report.filter (!·.isRepair) :=
      List.mem_filter.2 ⟨h, by rw [hr]; rfl⟩
    rw [Conversation.Grouper.report_pushAll] at hm
    rcases List.mem_append.1 hm with hm | hm
    · rw [List.eq_of_mem_replicate hm]
      rfl
    · rw [eq_of_mem_logPositive hm]
      rfl

theorem stage?_of_mem (h : event ∈ (stage.apply context ids document).events) :
    event.stage? = some stage := by
  cases stage with
  | envelope => cases h
  | renames =>
    rw [apply, renameFields] at h
    split at h
    · cases h
    · rw [eq_of_mem_logPositive h]
      rfl
  | roles =>
    rw [apply, fillRoles] at h
    split at h
    · cases h
    · rw [eq_of_mem_logPositive h]
      rfl
  | continuation =>
    rw [apply, askToContinue] at h
    split at h
    · cases h
    · split at h
      · cases h
      · rw [List.mem_singleton.1 h]
        rfl
  | links =>
    rw [apply, linkCalls] at h
    split at h
    · cases h
    · rcases List.mem_append.1 h with h | h
      · rw [eq_of_mem_logPositive h]
        rfl
      · rw [List.mem_singleton.1 h]
        rfl
  | signatures =>
    rw [apply, markSignatures] at h
    split at h
    · cases h
    · rw [eq_of_mem_logPositive h]
      rfl
  | grouping =>
    rw [apply, groupResponses] at h
    split at h
    · cases h
    · rcases List.mem_append.1 h with h | h
      · exact stage?_of_mem_report h
      · rw [List.mem_singleton.1 h]
        rfl
    · cases h
  | safety =>
    rw [apply, attachSettings] at h
    split at h
    · cases h
    · split at h
      · rw [List.mem_singleton.1 h]
        rfl
      · cases h

theorem filter_events (context : Context) (ids : IdSource) (document : Json) (stage other : Stage) :
    (other.apply context ids document).events.filter (·.stage? = some stage) =
      if other = stage then (other.apply context ids document).events else [] := by
  rw [Event.filter_of_forall fun event h => stage?_of_mem h]
  exact if_congr Option.some_inj rfl rfl

end Stage

namespace Outcome

variable {outcome : Outcome} {next : IdSource → Json → Outcome}

theorem failure_of_result {document : Json} (h : outcome.result = .ok document) :
    outcome.failure = none := by
  rw [result] at h
  split at h
  · cases h
  · assumption

theorem success_of_andThen (h : (outcome.andThen next).failure = none) :
    outcome.failure = none ∧ (next outcome.ids outcome.document).failure = none := by
  cases hf : outcome.failure with
  | none =>
    rw [andThen_of_success hf] at h
    exact ⟨rfl, h⟩
  | some error =>
    rw [andThen_of_failure hf, hf] at h
    cases h

end Outcome

namespace Plan

variable {context : Context} {ids : IdSource} {document : Json} {stage : Stage}

theorem filter_events_of_not_mem {stages : List Stage} (h : stage ∉ stages) :
    (runAll context ids document (stages.map .single)).events.filter (·.stage? = some stage) =
      [] := by
  induction stages generalizing ids document with
  | nil => rfl
  | cons other rest ih =>
    obtain ⟨hne, hrest⟩ := not_or.1 (List.mem_cons.not.1 h)
    rw [List.map_cons]
    cases ha : (Plan.single other).appliesTo context with
    | false =>
      rw [runAll_of_skipped ha, Outcome.logged, List.filter_append, ih hrest]
      rfl
    | true =>
      have hother : (run context ids document (.single other)).events.filter
          (·.stage? = some stage) = [] := by
        rw [run, Stage.filter_events, if_neg (Ne.symm hne)]
      rw [runAll_of_applies ha]
      cases hf : (run context ids document (.single other)).failure with
      | some error => rw [Outcome.andThen_of_failure hf, hother]
      | none =>
        rw [Outcome.andThen_of_success hf, Outcome.logged, List.filter_append, hother, ih hrest]
        rfl

theorem filter_events {front back : List Stage} (hfront : stage ∉ front) (hback : stage ∉ back)
    (ha : stage.appliesTo context = true)
    (h : (run context ids document (.ofStages (front ++ stage :: back))).failure = none) :
    (run context ids document (.ofStages (front ++ stage :: back))).events.filter
        (·.stage? = some stage) =
      (stage.apply context (run context ids document (.ofStages front)).ids
        (run context ids document (.ofStages front)).document).events := by
  -- Since the whole run does not fail, neither does the part before the stage, nor the stage.
  rw [run_ofStages, List.map_append, List.map_cons, runAll_append] at h
  obtain ⟨hbefore, hrest⟩ := Outcome.success_of_andThen h
  have happlies : (Plan.single stage).appliesTo context = true := ha
  rw [runAll_of_applies happlies] at hrest
  obtain ⟨hstage, -⟩ := Outcome.success_of_andThen hrest
  rw [run_ofStages, run_ofStages, List.map_append, List.map_cons, runAll_append,
    Outcome.andThen_of_success hbefore, runAll_of_applies happlies,
    Outcome.andThen_of_success hstage, Outcome.logged, Outcome.logged, List.filter_append,
    List.filter_append, filter_events_of_not_mem hfront, filter_events_of_not_mem hback, run,
    Stage.filter_events, if_pos rfl, List.append_nil, List.nil_append]

end Plan

theorem Target.stages_eq {target : Target} {stage : Stage} (h : stage ∈ target.stages) :
    target.stages = target.stages.takeWhile (· ≠ stage) ++
        stage :: (target.stages.dropWhile (· ≠ stage)).tail ∧
      stage ∉ target.stages.takeWhile (· ≠ stage) ∧
      stage ∉ (target.stages.dropWhile (· ≠ stage)).tail := by
  revert h
  cases target <;> cases stage <;> decide

namespace Normalizer

variable {n : Normalizer} {context : Context} {ids : IdSource} {document : Json} {stage : Stage}

def before (n : Normalizer) (stage : Stage) (context : Context) (ids : IdSource)
    (document : Json) : Outcome :=
  Plan.run context ids document (.ofStages (n.target.stages.takeWhile (· ≠ stage)))

def entering (n : Normalizer) (stage : Stage) (context : Context) (ids : IdSource)
    (document : Json) : Option (List Json) :=
  Stage.turns? context (n.before stage context ids document).document

theorem filter_plan (hs : stage ∈ n.target.stages) (ha : stage.appliesTo context = true)
    (h : (n.plan.run context ids document).failure = none) :
    (n.plan.run context ids document).events.filter (·.stage? = some stage) =
      (stage.apply context (n.before stage context ids document).ids
        (n.before stage context ids document).document).events := by
  obtain ⟨hstages, hfront, hback⟩ := Target.stages_eq hs
  rw [plan, hstages] at h ⊢
  exact Plan.filter_events hfront hback ha h

end Normalizer

end Dialogue
