import Dialogue.Proofs.Grouping.Attribution
import Dialogue.Proofs.Grouping.Residue

namespace Dialogue.Conversation

theorem isWellFormed_of_gathered {part : Json} (h : Part.Gathered part) :
    Part.isWellFormed part = true := by
  obtain ⟨fields, hf, hresult⟩ := h.result
  rw [Part.isWellFormed, hf]
  exact (Option.all_eq_true ..).2 hresult

namespace Grouper

variable {g second : Grouper} {turn : Json} {parts : List Json} {older newer : List Nat}

theorem takeNewest?_append {there needed : Nat} (hle : needed ≤ there)
    (h : ∀ n ∈ newer, there < n) (older : List Nat) :
    takeNewest? there (older ++ needed :: newer) = some (needed, older ++ newer) := by
  induction older with
  | nil => rw [List.nil_append, takeNewest?, takeNewest?_of_lt h]; exact if_pos hle
  | cons n older ih => rw [List.cons_append, takeNewest?, ih]; rfl

theorem push_groupTurn (hw : second.waiting = [])
    (hp : second.pending = older ++ parts.length :: newer) (hn : ∀ n ∈ newer, parts.length < n)
    (hne : parts ≠ []) (hg : ∀ part ∈ parts, Part.Gathered part) :
    (second.push (groupTurn parts)).output = second.output ++ [groupTurn parts] ∧
      (second.push (groupTurn parts)).pending = older ++ newer ∧
      (second.push (groupTurn parts)).waiting = [] := by
  have hrepair : parts.map repairResponse = parts :=
    (List.map_congr_left fun part hm =>
      repairResponse_of_isWellFormed (isWellFormed_of_gathered (hg part hm))).trans
        (List.map_id parts)
  have hpush : second.push (groupTurn parts) =
      settleNewest { second with waiting := second.waiting ++ parts } :=
    push_of_responses second hne fun part hm => (hg part hm).isResponse
  rw [hpush, settleNewest]
  dsimp only
  rw [hw, hp, List.nil_append, takeNewest?_append (Nat.le_refl _) hn]
  dsimp only
  rw [emit_of_ne_nil (by rwa [List.take_length])]
  dsimp only
  rw [List.take_length, hrepair]
  exact ⟨rfl, rfl, List.drop_length⟩

/-- What was put out so far comes out of a second grouper as it is, which then has the same groups
open and no response waiting. -/
structure Replayed (g : Grouper) : Prop where
  output : (pushAll {} g.output).output = g.output
  pending : (pushAll {} g.output).pending = g.pending
  waiting : (pushAll {} g.output).waiting = []

theorem Replayed.of_eq {next : Grouper} (h : Replayed g) (ho : next.output = g.output)
    (hp : next.pending = g.pending) : Replayed next where
  output := by rw [ho, h.output]
  pending := by rw [ho, h.pending, hp]
  waiting := by rw [ho, h.waiting]

theorem Replayed.pushPlain (h : Replayed g) {rest : Json} (ho : rest.isObject = true)
    (hg : isGroup rest = false) : Replayed (g.pushPlain rest) := by
  have hpush : pushAll {} (g.pushPlain rest).output = (pushAll {} g.output).pushPlain rest := by
    rw [Grouper.pushPlain, pushAll_concat, push_of_isGroup_eq_false _ ho hg]
  refine ⟨?_, ?_, ?_⟩
  · rw [hpush, Grouper.pushPlain, h.output, Grouper.pushPlain]
  · rw [hpush, Grouper.pushPlain, h.pending, Grouper.pushPlain]
  · rw [hpush, Grouper.pushPlain, h.waiting]

theorem Replayed.receive (h : Replayed g) (hq : g.Queued)
    (hpos : ∀ needed ∈ g.pending, 0 < needed) (turn : Json) : Replayed (g.receive turn) := by
  rcases receive_cases g turn with ⟨ho, hp, -⟩ | ⟨older, needed, newer, hp, hle, hlt, he⟩
  · exact h.of_eq ho hp
  · have hpositive := hpos needed (hp ▸ List.mem_append_right _ (.head _))
    have hlength : ((g.waiting ++ responses turn).take needed).length = needed :=
      List.length_take_of_le hle
    have hsize : (((g.waiting ++ responses turn).take needed).map repairResponse).length = needed :=
      (List.length_map _).trans hlength
    have hgathered := gathered_taken (queued_receiving hq turn (older ++ newer)) needed
    rw [emit_of_ne_nil (List.ne_nil_of_length_pos (hpositive.trans_eq hlength.symm))] at he
    dsimp only at he hgathered
    generalize ((g.waiting ++ responses turn).take needed).map repairResponse = parts
      at he hsize hgathered
    have hne : parts ≠ [] := List.ne_nil_of_length_pos (hpositive.trans_eq hsize.symm)
    -- No newer group was small enough for all that waited, so none is for the group alone.
    have hsecond : (pushAll {} g.output).pending = older ++ parts.length :: newer := by
      rw [h.pending, hp, hsize]
    obtain ⟨ho, hpend, hwait⟩ :=
      push_groupTurn h.waiting hsecond (by rwa [hsize]) hne hgathered
    rw [he]
    refine ⟨?_, ?_, ?_⟩
    · rw [pushAll_concat, ho, h.output]
    · rw [pushAll_concat, hpend]
    · rw [pushAll_concat, hwait]

theorem Replayed.push (h : Replayed g) (hq : g.Queued) (hpos : ∀ needed ∈ g.pending, 0 < needed)
    (turn : Json) : Replayed (g.push turn) := by
  cases ho : turn.isObject with
  | false =>
    rw [push_of_not_isObject g ho]
    exact h.of_eq rfl rfl
  | true =>
    have hreceive := h.receive hq hpos turn
    rw [push_of_isObject g ho]
    cases hl : leftover? turn with
    | none => exact hreceive
    | some rest => exact hreceive.pushPlain (leftover?_eq_some hl).1 (isGroup_leftover hl)

theorem replayed_pushAll (turns : List Json) : Replayed (pushAll {} turns) := by
  induction turns using List.reverseRecOn with
  | nil => exact ⟨rfl, rfl, rfl⟩
  | append_singleton front turn ih =>
    rw [pushAll_concat]
    exact ih.push (queued_pushAll front) (Balanced.initial.pushAll front).pending_pos turn

theorem output_settleAll_of_waiting (h : g.waiting = []) (counts : List Nat) :
    (counts.foldl settle g).output = g.output := by
  induction counts generalizing g with
  | nil => rfl
  | cons needed rest ih =>
    rw [List.foldl_cons, settle]
    split
    · have hw : (g.emit needed).waiting = [] := by rw [waiting_emit, h, List.drop_nil]
      rw [ih hw, emit, h, List.take_nil]
      rfl
    · exact ih h

theorem output_flush_of_waiting (h : g.waiting = []) : g.flush.output = g.output :=
  output_settleAll_of_waiting (g := { g with pending := [] }) h g.pending

end Grouper

/-- Where every group was put out as soon as its responses had come, grouping once more changes
nothing. -/
theorem groupTurns_groupTurns {turns : List Json}
    (h : (Grouper.pushAll {} turns).flush.groups = (Grouper.pushAll {} turns).groups) :
    groupTurns (groupTurns turns) = groupTurns turns := by
  have hreplayed := Grouper.replayed_pushAll turns
  have hflushed : groupTurns turns = (Grouper.pushAll {} turns).output := by
    obtain ⟨groups, hc⟩ := closes_flush (queued_pushAll turns)
    have hnone : groups = [] := by
      rw [← List.length_eq_zero_iff]
      have := hc.counted
      omega
    rw [groupTurns, Grouper.finish, hc.output, hnone, List.append_nil]
  calc groupTurns (groupTurns turns)
    _ = (Grouper.pushAll {} (Grouper.pushAll {} turns).output).flush.output := by
      rw [hflushed, groupTurns, Grouper.finish]
    _ = (Grouper.pushAll {} (Grouper.pushAll {} turns).output).output :=
      Grouper.output_flush_of_waiting hreplayed.waiting
    _ = groupTurns turns := by rw [hreplayed.output, hflushed]

def asking (names : List String) : Json :=
  .object [("role", .string "model"), ("parts", .array (names.map fun name =>
    .object [("functionCall", .object [("name", .string name)])]))]

def telling (names : List String) : Json :=
  .object [("role", .string "user"), ("parts", .array (names.map fun name =>
    .object [("functionResponse",
      .object [("name", .string name), ("response", .string "done")])]))]

def interruptedRound : List Json :=
  [asking ["f", "g"], telling ["f"], asking ["h"], telling ["h"], telling ["g"]]

theorem groupTurns_groupTurns_interruptedRound :
    groupTurns (groupTurns interruptedRound) = groupTurns interruptedRound ∧
      groupTurns interruptedRound ≠ interruptedRound :=
  ⟨groupTurns_groupTurns (by decide), by decide⟩

/-- In the end groups are put out oldest first, but a second grouper gives each one that it meets to
the newest turn that is small enough. -/
example : groupTurns (groupTurns [asking ["a", "b"], asking ["c"], asking ["d", "e", "f"],
      telling ["a", "b", "c", "d", "e", "f"]]) ≠
    groupTurns [asking ["a", "b"], asking ["c"], asking ["d", "e", "f"],
      telling ["a", "b", "c", "d", "e", "f"]] := by decide

end Dialogue.Conversation
