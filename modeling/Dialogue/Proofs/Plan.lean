import Dialogue.Proofs.Stage
import Dialogue.Proofs.Turn

namespace Dialogue

def Event.isSkip : Event → Bool
  | .stageSkipped _ => true
  | _ => false

namespace Outcome

def withoutSkips (outcome : Outcome) : Outcome :=
  { outcome with events := outcome.events.filter fun event => !event.isSkip }

def ending (outcome : Outcome) : Except DocumentError Unit × IdSource × Json :=
  match outcome.failure with
  | some e => (.error e, outcome.ids, outcome.document)
  | none => (.ok (), outcome.ids, outcome.document)

variable {outcome : Outcome} {next last : IdSource → Json → Outcome}

theorem andThen_of_failure {error : DocumentError} (h : outcome.failure = some error) :
    outcome.andThen next = outcome := by
  rw [andThen, h]

theorem andThen_of_success (h : outcome.failure = none) :
    outcome.andThen next = (next outcome.ids outcome.document).logged outcome.events := by
  rw [andThen, h]

theorem logged_logged (front back : List Event) (outcome : Outcome) :
    (outcome.logged back).logged front = outcome.logged (front ++ back) := by
  rw [logged, logged, logged, List.append_assoc]

theorem andThen_logged (events : List Event) (outcome : Outcome)
    (next : IdSource → Json → Outcome) :
    (outcome.logged events).andThen next = (outcome.andThen next).logged events := by
  cases hf : outcome.failure with
  | some e =>
    rw [andThen_of_failure hf]
    exact andThen_of_failure hf
  | none =>
    rw [andThen_of_success hf, logged_logged]
    exact andThen_of_success hf

theorem andThen_assoc (outcome : Outcome) (next last : IdSource → Json → Outcome) :
    (outcome.andThen next).andThen last =
      outcome.andThen fun ids document => (next ids document).andThen last := by
  cases hf : outcome.failure with
  | some e => rw [andThen_of_failure hf, andThen_of_failure hf, andThen_of_failure hf]
  | none => rw [andThen_of_success hf, andThen_of_success hf, andThen_logged]

theorem withoutSkips_logged (events : List Event) (outcome : Outcome) :
    (outcome.logged events).withoutSkips =
      outcome.withoutSkips.logged (events.filter fun event => !event.isSkip) := by
  rw [withoutSkips, logged, logged, withoutSkips, List.filter_append]

theorem withoutSkips_andThen (outcome : Outcome) (next : IdSource → Json → Outcome) :
    (outcome.andThen next).withoutSkips =
      outcome.withoutSkips.andThen fun ids document => (next ids document).withoutSkips := by
  cases hf : outcome.failure with
  | some e =>
    have hs : outcome.withoutSkips.failure = some e := hf
    rw [andThen_of_failure hf, andThen_of_failure hs]
  | none =>
    have hs : outcome.withoutSkips.failure = none := hf
    rw [andThen_of_success hf, andThen_of_success hs, withoutSkips_logged]
    rfl

theorem ending_of_failure {error : DocumentError} (h : outcome.failure = some error) :
    outcome.ending = (.error error, outcome.ids, outcome.document) := by
  rw [ending, h]

theorem ending_of_success (h : outcome.failure = none) :
    outcome.ending = (.ok (), outcome.ids, outcome.document) := by
  rw [ending, h]

theorem ending_logged (events : List Event) (outcome : Outcome) :
    (outcome.logged events).ending = outcome.ending := rfl

end Outcome

namespace Plan

variable {context : Context} {ids : IdSource} {document : Json} {plan : Plan}

theorem runAll_of_applies (h : plan.appliesTo context = true) (ids : IdSource) (document : Json)
    (rest : List Plan) : runAll context ids document (plan :: rest) =
      (run context ids document plan).andThen fun ids document =>
        runAll context ids document rest := by
  rw [runAll, if_pos h]

theorem runAll_of_skipped (h : plan.appliesTo context = false) (ids : IdSource) (document : Json)
    (rest : List Plan) : runAll context ids document (plan :: rest) =
      (runAll context ids document rest).logged [.stageSkipped plan.name] := by
  rw [runAll, h, if_neg Bool.false_ne_true]

theorem runAll_append (context : Context) (ids : IdSource) (document : Json)
    (front back : List Plan) : runAll context ids document (front ++ back) =
      (runAll context ids document front).andThen fun ids document =>
        runAll context ids document back := by
  induction front generalizing ids document with
  | nil => rfl
  | cons plan rest ih =>
    rw [List.cons_append]
    cases ha : plan.appliesTo context with
    | true =>
      rw [runAll_of_applies ha, runAll_of_applies ha, Outcome.andThen_assoc]
      simp only [ih]
    | false => rw [runAll_of_skipped ha, runAll_of_skipped ha, Outcome.andThen_logged, ih]

theorem run_splice (context : Context) (ids : IdSource) (document : Json)
    (front inner back : List Plan) :
    run context ids document (.chain (front ++ .chain inner :: back)) =
      run context ids document (.chain (front ++ inner ++ back)) := by
  have hchain : ∀ ids document, runAll context ids document (.chain inner :: back) =
      runAll context ids document (inner ++ back) := by
    intro ids document
    rw [runAll_of_applies rfl, run, runAll_append]
  rw [run, run, List.append_assoc, runAll_append, runAll_append context ids document front]
  simp only [hchain]

theorem withoutSkips_runAll (context : Context) (ids : IdSource) (document : Json)
    (plans : List Plan) :
    (runAll context ids document plans).withoutSkips =
      (runAll context ids document (plans.filter (·.appliesTo context))).withoutSkips := by
  induction plans generalizing ids document with
  | nil => rfl
  | cons plan rest ih =>
    cases ha : plan.appliesTo context with
    | true =>
      rw [List.filter_cons_of_pos ha, runAll_of_applies ha, runAll_of_applies ha,
        Outcome.withoutSkips_andThen, Outcome.withoutSkips_andThen]
      simp only [ih]
    | false =>
      rw [List.filter_cons_of_neg (by simp [ha]), runAll_of_skipped ha,
        Outcome.withoutSkips_logged, ih]
      rfl

section

variable {σ ε α β : Type} {step : ExceptT ε (StateM σ) α} {next : α → ExceptT ε (StateM σ) β}
  {s s' : σ}

theorem bind_of_error {e : ε} (h : step s = (.error e, s')) :
    (step >>= next) s = (.error e, s') := by
  change (match step s with | (a, s') => ExceptT.bindCont next a s') = _
  rw [h]
  rfl

theorem bind_of_ok {a : α} (h : step s = (.ok a, s')) : (step >>= next) s = next a s' := by
  change (match step s with | (a, s') => ExceptT.bindCont next a s') = _
  rw [h]
  rfl

end

def action (context : Context) (plan : Plan) :
    ExceptT DocumentError (StateM (IdSource × Json)) Unit :=
  .mk fun (ids, document) => (run context ids document plan).ending

theorem action_apply (context : Context) (plan : Plan) (ids : IdSource) (document : Json) :
    action context plan (ids, document) = (run context ids document plan).ending := rfl

theorem action_chain_of_applies (h : plan.appliesTo context = true) (rest : List Plan) :
    action context (.chain (plan :: rest)) =
      action context plan >>= fun _ => action context (.chain rest) := by
  funext ⟨ids, document⟩
  rw [action_apply, run, runAll_of_applies h]
  cases hf : (run context ids document plan).failure with
  | some e =>
    rw [Outcome.andThen_of_failure hf, Outcome.ending_of_failure hf,
      bind_of_error ((action_apply ..).trans (Outcome.ending_of_failure hf))]
  | none =>
    rw [Outcome.andThen_of_success hf, Outcome.ending_logged,
      bind_of_ok ((action_apply ..).trans (Outcome.ending_of_success hf)), action_apply, run]

theorem action_chain_of_skipped (h : plan.appliesTo context = false) (rest : List Plan) :
    action context (.chain (plan :: rest)) = action context (.chain rest) := by
  funext ⟨ids, document⟩
  rw [action_apply, run, runAll_of_skipped h, Outcome.ending_logged, action_apply, run]

theorem action_chain (context : Context) (plans : List Plan) :
    action context (.chain plans) =
      (plans.filter (·.appliesTo context)).forM (action context) := by
  induction plans with
  | nil => rfl
  | cons plan rest ih =>
    cases ha : plan.appliesTo context with
    | true =>
      rw [List.filter_cons_of_pos ha, action_chain_of_applies ha, ih]
      rfl
    | false => rw [List.filter_cons_of_neg (by simp [ha]), action_chain_of_skipped ha, ih]

end Plan

theorem Target.filter_stages {context : Context} (h : context.target = .gemini) (target : Target) :
    target.stages.filter (·.appliesTo context) =
      Target.gemini.stages.filter (·.appliesTo context) := by
  have henvelope : Stage.envelope.appliesTo context = false := by
    rw [Stage.appliesTo, h]
    rfl
  have hgrouping : Stage.grouping.appliesTo context = false := by
    rw [Stage.appliesTo, h]
    rfl
  cases target with
  | gemini => rfl
  | antigravity =>
    simp [stages, envelopeKey?, needsGrouping, List.filter_cons, henvelope, hgrouping]

namespace Normalizer

theorem withoutSkips_plan {context : Context} (h : context.target = .gemini) (n other : Normalizer)
    (ids : IdSource) (document : Json) :
    (n.plan.run context ids document).withoutSkips =
      (other.plan.run context ids document).withoutSkips := by
  have hplans : ∀ target : Target,
      (target.stages.map Plan.single).filter (·.appliesTo context) =
        (Target.gemini.stages.filter (·.appliesTo context)).map Plan.single := by
    intro target
    rw [List.filter_map, ← Target.filter_stages h target]
    rfl
  rw [plan, plan, Plan.ofStages, Plan.ofStages, Plan.run, Plan.run, Plan.withoutSkips_runAll,
    hplans, ← hplans other.target, ← Plan.withoutSkips_runAll]

theorem withoutSkips_normalize {context : Context} (h : context.target = .gemini)
    (n other : Normalizer) (ids : IdSource) (document : Json) :
    (n.normalize context ids document).withoutSkips =
      (other.normalize context ids document).withoutSkips := by
  rw [normalize, normalize]
  split
  · rfl
  · rw [Outcome.withoutSkips_logged, withoutSkips_plan h n other, ← Outcome.withoutSkips_logged]

end Normalizer

/-- Passing over a stage because of the request is the same as not having it.  Whichever target a
normalizer was made for, it does the same to a request that is to stand alone; a chain does what
is meant for the request, one after another and up to the first failure, with the same document
left; and a chain within a chain does the same as its plans in its place. -/
theorem Plan.skips_unnoticed (context : Context) :
    (context.target = .gemini → ∀ (n other : Normalizer) (ids : IdSource) (document : Json),
      (n.normalize context ids document).result = (other.normalize context ids document).result ∧
      (n.normalize context ids document).ids = (other.normalize context ids document).ids ∧
      (n.normalize context ids document).withoutSkips =
        (other.normalize context ids document).withoutSkips) ∧
    (∀ plans, action context (.chain plans) =
      (plans.filter (·.appliesTo context)).forM (action context)) ∧
    ∀ (front inner back : List Plan) (ids : IdSource) (document : Json),
      run context ids document (.chain (front ++ .chain inner :: back)) =
        run context ids document (.chain (front ++ inner ++ back)) := by
  refine ⟨fun h n other ids document => ?_, action_chain context,
    fun front inner back ids document => run_splice context ids document front inner back⟩
  have hsame := Normalizer.withoutSkips_normalize h n other ids document
  have hresult := congrArg Outcome.result hsame
  have hids := congrArg Outcome.ids hsame
  exact ⟨hresult, hids, hsame⟩

def Plan.spoiling : Plan :=
  .custom
    { name := "spoiling"
      apply := fun _ ids _ =>
        { document := .null, ids := ids.advance, failure := some (.malformedConversation "body") } }

def Body.unidentified : Json :=
  .object [("contents", .array [Turn.calling [none]])]

theorem Plan.skips_unnoticed_spoiled :
    Context.bare.target = .gemini ∧
      (Normalizer.normalize { target := .antigravity } .bare .counting Body.unidentified).result =
        (Normalizer.normalize { target := .gemini } .bare .counting Body.unidentified).result ∧
      (Normalizer.normalize { target := .antigravity } .bare .counting
        Body.unidentified).ids.drawn = 1 ∧
      ([Plan.single .grouping, spoiling, .single .safety].filter (·.appliesTo .bare)).length = 2 ∧
      (([Plan.single .grouping, spoiling, .single .safety].filter (·.appliesTo .bare)).forM
        (action .bare)) (.counting, Body.unidentified) =
          (.error (.malformedConversation "body"), IdSource.counting.advance, .null) := by
  obtain ⟨hnormalize, hchain, -⟩ := skips_unnoticed .bare
  obtain ⟨hresult, hids, -⟩ := hnormalize rfl { target := .antigravity } { target := .gemini }
    .counting Body.unidentified
  have hdrawn : (Normalizer.normalize { target := .gemini } .bare .counting
      Body.unidentified).ids.drawn = 1 := by decide +kernel
  refine ⟨rfl, hresult, by rw [hids, hdrawn], rfl, ?_⟩
  rw [← hchain]
  rfl

end Dialogue
