import Dialogue.Proofs.Conversation.Sendable

/-!
What grouping leaves of a conversation.  Only responses move: of each turn whatever else it holds
stays where it is, and a group that is closed by a turn's responses stands right before the rest of
that turn.
-/

namespace Dialogue.Conversation

/-- What is left of a turn whose responses are taken out. -/
inductive Residue (turn : Json) : Option Json → Prop where
  | noTurn (h : turn.isObject = false) : Residue turn none
  | verbatim (ho : turn.isObject = true)
      (h : ∀ part ∈ Turn.parts turn, Part.kind part ≠ .functionResponse) :
      Residue turn (some turn)
  | nothing (hne : Turn.parts turn ≠ [])
      (h : ∀ part ∈ Turn.parts turn, Part.kind part = .functionResponse) : Residue turn none
  | mixed {response other rest : Json} (hr : response ∈ Turn.parts turn)
      (hrk : Part.kind response = .functionResponse) (ho : other ∈ Turn.parts turn)
      (hok : Part.kind other ≠ .functionResponse)
      (h : Json.WithField "parts"
        (.array ((Turn.parts turn).filter (Part.kind · ≠ .functionResponse))) turn rest) :
      Residue turn (some rest)

structure Step where
  closed? : Option Json
  residue? : Option Json

def Step.turns (step : Step) : List Json := step.closed?.toList ++ step.residue?.toList

variable {turn : Json} {turns front : List Json} {g next last : Grouper}

theorem others_eq (turn : Json) :
    others turn = (Turn.parts turn).filter (Part.kind · ≠ .functionResponse) := by
  rw [others]
  apply List.filter_congr
  intro part _
  rw [Part.isResponse, decide_not]

theorem others_eq_nil_iff :
    others turn = [] ↔ ∀ part ∈ Turn.parts turn, Part.kind part = .functionResponse := by
  simp [others_eq, List.filter_eq_nil_iff]

theorem isGroup_iff :
    isGroup turn = true ↔ ∃ part ∈ Turn.parts turn, Part.kind part = .functionResponse := by
  simp [isGroup, Turn.has]

theorem isObject_of_isGroup (h : isGroup turn = true) : turn.isObject = true := by
  obtain ⟨part, hp, -⟩ := isGroup_iff.1 h
  exact Turn.isObject_of_parts_ne_nil (List.ne_nil_of_mem hp)

theorem leftover?_of_isGroup (h : isGroup turn = true) :
    leftover? turn =
      if (others turn).isEmpty then none else some (Turn.withParts turn (others turn)) := by
  rw [leftover?, isObject_of_isGroup h, h]
  rfl

theorem residue_leftover (turn : Json) : Residue turn (leftover? turn) := by
  cases ho : turn.isObject with
  | false =>
    rw [leftover?, ho]
    exact .noTurn ho
  | true =>
    cases hg : isGroup turn with
    | false =>
      rw [leftover?, ho, hg]
      exact .verbatim ho (Turn.has_eq_false_iff.1 hg)
    | true =>
      obtain ⟨response, hr, hrk⟩ := isGroup_iff.1 hg
      rw [leftover?_of_isGroup hg]
      split
      · next hn =>
        exact .nothing (List.ne_nil_of_mem hr) (others_eq_nil_iff.1 (List.isEmpty_iff.1 hn))
      · next hn =>
        rw [List.isEmpty_iff, others_eq_nil_iff] at hn
        push Not at hn
        obtain ⟨other, hm, hok⟩ := hn
        refine .mixed hr hrk hm hok ?_
        rw [Json.withField_iff ho, ← others_eq]
        rfl

theorem Residue.eq {rest? : Option Json} (h : Residue turn rest?) : rest? = leftover? turn := by
  cases h with
  | noTurn ho =>
    rw [leftover?, ho]
    rfl
  | verbatim ho h =>
    rw [leftover?, ho, isGroup, Turn.has_eq_false_iff.2 h]
    rfl
  | nothing hne h =>
    obtain ⟨part, hp⟩ := List.exists_mem_of_ne_nil _ hne
    rw [leftover?_of_isGroup (isGroup_iff.2 ⟨part, hp, h part hp⟩), others_eq_nil_iff.2 h]
    rfl
  | mixed hr hrk ho hok h =>
    have hn : others turn ≠ [] := fun hn => hok (others_eq_nil_iff.1 hn _ ho)
    rw [leftover?_of_isGroup (isGroup_iff.2 ⟨_, hr, hrk⟩), if_neg (List.isEmpty_iff.not.2 hn),
      (Json.withField_iff h.isObject).1 h, ← others_eq]
    rfl

theorem others_leftover (turn : Json) : (leftover? turn).toList.flatMap others = others turn := by
  cases ho : turn.isObject with
  | false =>
    rw [leftover?, ho, others, Turn.parts, Turn.parts?_of_not_isObject ho]
    rfl
  | true =>
    cases hg : isGroup turn with
    | false =>
      rw [leftover?, ho, hg]
      exact List.flatMap_singleton ..
    | true =>
      rw [leftover?_of_isGroup hg]
      split
      · next hn => exact (List.isEmpty_iff.1 hn).symm
      · rw [Option.toList_some, List.flatMap_singleton, others, Turn.parts_withParts ho, others,
          List.filter_filter]
        simp only [Bool.and_self]

theorem others_of_isGathering (h : Turn.IsGathering turn) : others turn = [] := by
  obtain ⟨responses, -, hr, rfl⟩ := h
  exact others_eq_nil_iff.2 fun part hp => of_decide_eq_true (hr part hp).isResponse

structure Closes (g next : Grouper) (groups : List Json) : Prop where
  output : next.output = g.output ++ groups
  counted : next.groups = g.groups + groups.length
  gathering : ∀ group ∈ groups, Turn.IsGathering group

theorem Closes.refl (ho : next.output = g.output) (hc : next.groups = g.groups) :
    Closes g next [] := ⟨by rw [ho, List.append_nil], hc, nofun⟩

theorem Closes.trans {groups more : List Json} (h : Closes g next groups)
    (h' : Closes next last more) : Closes g last (groups ++ more) where
  output := by rw [h'.output, h.output, List.append_assoc]
  counted := by rw [h'.counted, h.counted, List.length_append, Nat.add_assoc]
  gathering group hg := (List.mem_append.1 hg).elim (h.gathering group) (h'.gathering group)

def Grouper.Queued (g : Grouper) : Prop := ∀ part ∈ g.waiting, Part.isResponse part = true

theorem gathered_taken (h : g.Queued) (needed : Nat) :
    ∀ part ∈ (g.waiting.take needed).map repairResponse, Part.Gathered part := by
  intro part hp
  obtain ⟨response, hr, rfl⟩ := List.mem_map.1 hp
  exact gathered_repairResponse (h response (List.mem_of_mem_take hr))

theorem closes_emit (h : g.Queued) (needed : Nat) :
    ∃ closed? : Option Json, Closes g (g.emit needed) closed?.toList := by
  by_cases hn : g.waiting.take needed = []
  · rw [Grouper.emit, hn]
    exact ⟨none, .refl rfl rfl⟩
  · rw [Grouper.emit_of_ne_nil hn]
    refine ⟨some (groupTurn ((g.waiting.take needed).map repairResponse)), rfl, rfl, ?_⟩
    intro group hg
    cases List.mem_singleton.1 hg
    exact ⟨_, fun he => hn (List.map_eq_nil_iff.1 he), gathered_taken h needed, rfl⟩

theorem receive_cases (g : Grouper) (turn : Json) :
    ((g.receive turn).output = g.output ∧ (g.receive turn).pending = g.pending ∧
      (g.receive turn).groups = g.groups) ∨
    ∃ older needed newer, g.pending = older ++ needed :: newer ∧
      needed ≤ (g.waiting ++ responses turn).length ∧ (∀ n ∈ newer, needed < n) ∧
      g.receive turn = Grouper.emit
        { g with waiting := g.waiting ++ responses turn, pending := older ++ newer } needed := by
  rw [Grouper.receive]
  split
  · rw [Grouper.settleNewest]
    dsimp only
    split
    · next needed others ht =>
      obtain ⟨older, newer, hp, rfl, hle, hlt⟩ := Grouper.takeNewest?_eq_some ht
      exact .inr ⟨older, needed, newer, hp, hle, fun n hn => hle.trans_lt (hlt n hn), rfl⟩
    · exact .inl ⟨rfl, rfl, rfl⟩
  · exact .inl ⟨rfl, rfl, rfl⟩

theorem queued_receiving (h : g.Queued) (turn : Json) (pending : List Nat) :
    Grouper.Queued { g with waiting := g.waiting ++ responses turn, pending } :=
  fun part hp => (List.mem_append.1 hp).elim (h part) isResponse_of_mem_responses

theorem closes_receive (h : g.Queued) (turn : Json) :
    ∃ closed? : Option Json, Closes g (g.receive turn) closed?.toList := by
  rcases receive_cases g turn with ⟨ho, -, hc⟩ | ⟨older, needed, newer, -, -, -, he⟩
  · exact ⟨none, .refl ho hc⟩
  · obtain ⟨closed?, hc⟩ := closes_emit (queued_receiving h turn (older ++ newer)) needed
    rw [he]
    exact ⟨closed?, hc.output, hc.counted, hc.gathering⟩

theorem output_push (h : g.Queued) (turn : Json) :
    ∃ closed? : Option Json,
      (g.push turn).output = g.output ++ Step.turns ⟨closed?, leftover? turn⟩ ∧
      (g.push turn).groups = g.groups + closed?.toList.length ∧
      ∀ group ∈ closed?, Turn.IsGathering group := by
  cases ho : turn.isObject with
  | false =>
    rw [Grouper.push_of_not_isObject g ho, leftover?, ho]
    exact ⟨none, (List.append_nil _).symm, rfl, by simp⟩
  | true =>
    obtain ⟨closed?, hc⟩ := closes_receive h turn
    rw [Grouper.push_of_isObject g ho]
    refine ⟨closed?, ?_, ?_, fun group hg => hc.gathering group (by simpa using hg)⟩
    · rw [Step.turns, ← List.append_assoc, ← hc.output]
      cases leftover? turn with
      | none => exact (List.append_nil _).symm
      | some rest => rfl
    · rw [← hc.counted]
      cases leftover? turn <;> rfl

theorem closes_settleAll (h : g.Queued) (counts : List Nat) :
    ∃ groups, Closes g (counts.foldl Grouper.settle g) groups := by
  induction counts generalizing g with
  | nil => exact ⟨[], .refl rfl rfl⟩
  | cons needed rest ih =>
    rw [List.foldl_cons, Grouper.settle]
    split
    · obtain ⟨closed?, hc⟩ := closes_emit h needed
      have hq : (g.emit needed).Queued := by
        intro part hp
        rw [Grouper.waiting_emit] at hp
        exact h part (List.mem_of_mem_drop hp)
      obtain ⟨groups, hg⟩ := ih hq
      exact ⟨_, hc.trans hg⟩
    · exact ih h

theorem closes_flush (h : g.Queued) : ∃ groups, Closes g g.flush groups := by
  obtain ⟨groups, hg⟩ := closes_settleAll (g := { g with pending := [] }) h g.pending
  exact ⟨groups, hg.output, hg.counted, hg.gathering⟩

theorem queued_pushAll (turns : List Json) : (Grouper.pushAll {} turns).Queued := by
  obtain ⟨opened, shares, hb, -⟩ := Balanced.initial.pushAll turns
  exact fun part hp => hb.isResponse_of_mem_waiting hp

/-- What is put out turn by turn. -/
structure Steps (turns : List Json) (steps : List Step) : Prop where
  residues : List.Forall₂ Residue turns (steps.map Step.residue?)
  output : ∀ n, (Grouper.pushAll {} (turns.take n)).output = (steps.take n).flatMap Step.turns
  counted : (Grouper.pushAll {} turns).groups = (steps.filterMap Step.closed?).length
  gathering : ∀ group ∈ steps.filterMap Step.closed?, Turn.IsGathering group

theorem Steps.output_pushAll {steps : List Step} (h : Steps turns steps) :
    (Grouper.pushAll {} turns).output = steps.flatMap Step.turns := by
  have hl : steps.length = turns.length := by simpa using h.residues.length_eq.symm
  have ho := h.output turns.length
  rwa [List.take_length, ← hl, List.take_length] at ho

theorem exists_steps (turns : List Json) : ∃ steps, Steps turns steps := by
  induction turns using List.reverseRecOn with
  | nil => exact ⟨[], .nil, fun n => by rw [List.take_nil, List.take_nil]; rfl, rfl, nofun⟩
  | append_singleton front turn ih =>
    obtain ⟨steps, h⟩ := ih
    obtain ⟨closed?, ho, hc, hg⟩ := output_push (queued_pushAll front) turn
    have hl : steps.length = front.length := by simpa using h.residues.length_eq.symm
    refine ⟨steps ++ [⟨closed?, leftover? turn⟩], ?_, fun n => ?_, ?_, ?_⟩
    · rw [List.map_append]
      exact List.rel_append h.residues (.cons (residue_leftover turn) .nil)
    · rcases Nat.lt_or_ge front.length n with hn | hn
      · rw [List.take_of_length_le (by simpa using hn),
          List.take_of_length_le (by simpa [hl] using hn), Grouper.pushAll_concat, ho,
          h.output_pushAll, List.flatMap_append, List.flatMap_singleton]
      · rw [List.take_append_of_le_length hn, List.take_append_of_le_length (hl ▸ hn), h.output]
    · rw [Grouper.pushAll_concat, hc, h.counted, List.filterMap_append, List.length_append]
      cases closed? <;> rfl
    · intro group hm
      rw [List.filterMap_append] at hm
      rcases List.mem_append.1 hm with hm | hm
      · exact h.gathering group hm
      · exact hg group (by simpa using hm)

theorem flatMap_others_filter (h : ∀ turn ∈ turns, isGroup turn = true → others turn = []) :
    (turns.filter (!isGroup ·)).flatMap others = turns.flatMap others := by
  induction turns with
  | nil => rfl
  | cons turn rest ih =>
    have hrest := ih fun t ht => h t (.tail _ ht)
    cases hg : isGroup turn with
    | true =>
      rw [List.filter_cons_of_neg (by simp [hg]), List.flatMap_cons, h turn (.head _) hg, hrest,
        List.nil_append]
    | false =>
      rw [List.filter_cons_of_pos (by simp [hg]), List.flatMap_cons, List.flatMap_cons, hrest]

theorem filter_groupTurns (turns : List Json) :
    (groupTurns turns).filter (!isGroup ·) = turns.filterMap leftover? := by
  obtain ⟨left, shares, hb, -, -⟩ := (Balanced.initial.pushAll turns).flush
  exact hb.kept

theorem flatMap_others_groupTurns (turns : List Json) :
    (groupTurns turns).flatMap others = turns.flatMap others :=
  calc (groupTurns turns).flatMap others
    _ = ((groupTurns turns).filter (!isGroup ·)).flatMap others := by
      refine (flatMap_others_filter fun turn ht hg => ?_).symm
      rcases mem_groupTurns ht with h | ⟨before, -, hl⟩
      · exact others_of_isGathering h
      · rw [isGroup_leftover hl] at hg
        cases hg
    _ = (turns.filterMap leftover?).flatMap others := by rw [filter_groupTurns]
    _ = turns.flatMap others := by
      rw [List.filterMap_eq_flatMap_toList, List.flatMap_assoc]
      exact congrArg turns.flatMap (funext others_leftover)

theorem Steps.filterMap_residue {steps : List Step} (h : Steps turns steps) :
    steps.filterMap Step.residue? = turns.filterMap leftover? := by
  have hr : List.Forall₂ Eq (turns.map leftover?) (steps.map Step.residue?) :=
    List.forall₂_map_left_iff.2 (h.residues.imp fun _ _ hr => hr.eq.symm)
  rw [List.forall₂_eq_eq_eq] at hr
  rw [← Function.id_comp Step.residue?, ← List.filterMap_map, ← hr, List.filterMap_map,
    Function.id_comp]

/-- Only responses move: what is put out is, turn by turn, at most one group and what is left of
the turn, and then the groups that are closed in the end. -/
theorem groupTurns_relocates (turns : List Json) :
    ∃ (steps : List Step) (flushed : List Json),
      Steps turns steps ∧
      groupTurns turns = steps.flatMap Step.turns ++ flushed ∧
      (∀ group ∈ flushed, Turn.IsGathering group) ∧
      (Grouper.pushAll {} turns).flush.groups =
        (steps.filterMap Step.closed?).length + flushed.length ∧
      (groupTurns turns).filter (!isGroup ·) = steps.filterMap Step.residue? ∧
      (groupTurns turns).flatMap others = turns.flatMap others := by
  obtain ⟨steps, hs⟩ := exists_steps turns
  obtain ⟨flushed, hf⟩ := closes_flush (queued_pushAll turns)
  refine ⟨steps, flushed, hs, ?_, hf.gathering, ?_, ?_, flatMap_others_groupTurns turns⟩
  · rw [groupTurns, Grouper.finish, hf.output, hs.output_pushAll]
  · rw [hf.counted, hs.counted]
  · rw [filter_groupTurns, hs.filterMap_residue]

end Dialogue.Conversation
