import Dialogue.Proofs.Conversation.Links
import Mathlib.Logic.Function.Basic

/-!
The registry as a family of queues, one for each name.  Whatever calls are recorded and claimed,
under any names and in any order, the claims on a name are given what was recorded under it, oldest
first, and what is done under one name cannot be told from the answers under another.

The registry keeps a queue for each name.  `CallTables` keeps the same in one table of identifiers,
by name and position, and two tables of counters, in which a claim that finds no call still leaves
an entry behind; nothing that is asked of the two tells them apart.
-/

namespace Dialogue.Conversation

namespace CallRegistry

inductive Operation where
  | record (name : String) (id : Json)
  | claim (name : String)
  deriving DecidableEq, Repr

namespace Operation

def name : Operation → String
  | .record name _ => name
  | .claim name => name

def recorded? (name : String) : Operation → Option Json
  | .record n id => if n = name then some id else none
  | .claim _ => none

def claimed? (name : String) : Operation × Option Json → Option Json
  | (.record .., _) => none
  | (.claim n, given) => if n = name then given else none

section

variable {σ τ : Type} (step : σ → Operation → Option Json × σ)

def transcript (state : σ) : List Operation → List (Operation × Option Json)
  | [] => []
  | op :: rest => (op, (step state op).1) :: transcript (step state op).2 rest

def after (state : σ) : List Operation → σ
  | [] => state
  | op :: rest => after (step state op).2 rest

variable {step} {other : τ → Operation → Option Json × τ}

theorem transcript_eq {R : σ → τ → Prop}
    (h : ∀ s t op, R s t → (step s op).1 = (other t op).1 ∧ R (step s op).2 (other t op).2)
    {s : σ} {t : τ} (hR : R s t) (ops : List Operation) :
    transcript step s ops = transcript other t ops ∧ R (after step s ops) (after other t ops) := by
  induction ops generalizing s t with
  | nil => exact ⟨rfl, hR⟩
  | cons op rest ih =>
    obtain ⟨hgiven, hnext⟩ := h s t op hR
    obtain ⟨htail, hlast⟩ := ih hnext
    refine ⟨?_, hlast⟩
    rw [transcript, transcript, hgiven, htail]

end

end Operation

def recordedFor (name : String) (ops : List Operation) : List Json :=
  ops.filterMap (Operation.recorded? name)

def claimedFor (name : String) (history : List (Operation × Option Json)) : List Json :=
  history.filterMap (Operation.claimed? name)

def operate (registry : CallRegistry) : Operation → Option Json × CallRegistry
  | .record name id => (none, registry.record name id)
  | .claim name => registry.claim name

variable {registry : CallRegistry}

theorem Sound.operate (h : registry.Sound) (op : Operation) : (registry.operate op).2.Sound := by
  cases op with
  | record name id => exact h.record name id
  | claim name => exact h.claim name

theorem fst_claim (registry : CallRegistry) (name : String) :
    (registry.claim name).1 = (registry.queue name).front? := by
  rw [CallRegistry.claim]
  split
  · next h => exact h.symm
  · next h => exact h.symm

theorem fst_claim_eq_head? (registry : CallRegistry) (name : String) :
    (registry.claim name).1 = (registry.unanswered name).head? := by
  rw [fst_claim, CallQueue.front?, unanswered, List.head?_drop]

theorem issued_record (registry : CallRegistry) (name other : String) (id : Json) :
    (registry.record name id).issued other =
      registry.issued other + if name = other then 1 else 0 := by
  rw [issued, queue_record]
  split
  · next h =>
    subst h
    exact List.length_append
  · rfl

theorem consumed_record (registry : CallRegistry) (name other : String) (id : Json) :
    (registry.record name id).consumed other = registry.consumed other := by
  rw [consumed, queue_record]
  split
  · next h =>
    subst h
    rfl
  · rfl

theorem ids_claim (registry : CallRegistry) (name other : String) :
    ((registry.claim name).2.queue other).ids = (registry.queue other).ids := by
  rw [queue_claim]
  split
  · next h =>
    rw [← h.1]
    rfl
  · rfl

theorem consumed_claim (registry : CallRegistry) (name other : String) :
    (registry.claim name).2.consumed other = registry.consumed other +
      if name = other ∧ (registry.claim name).1.isSome then 1 else 0 := by
  rw [consumed, queue_claim, fst_claim]
  split
  · next h =>
    rw [← h.1]
    rfl
  · rfl

theorem unanswered_operate (h : registry.Sound) (name : String) (op : Operation) :
    registry.unanswered name ++ (op.recorded? name).toList =
      (Operation.claimed? name (op, (registry.operate op).1)).toList ++
        (registry.operate op).2.unanswered name := by
  cases op with
  | record n id =>
    rw [CallRegistry.operate, unanswered_record h, Operation.recorded?, Operation.claimed?]
    split <;> rfl
  | claim n =>
    rw [CallRegistry.operate, Operation.recorded?, Operation.claimed?, Option.toList_none,
      List.append_nil]
    cases hu : registry.unanswered n with
    | nil =>
      rw [claim_of_unanswered_nil hu, ite_self]
      rfl
    | cons id rest =>
      obtain ⟨hid, hrest⟩ := claim_of_unanswered hu
      rw [hid, hrest]
      split
      · next he =>
        subst he
        exact hu
      · rfl

theorem issued_operate (name : String) (op : Operation) :
    (registry.operate op).2.issued name =
      registry.issued name + (op.recorded? name).toList.length := by
  cases op with
  | record n id =>
    rw [CallRegistry.operate, issued_record, Operation.recorded?]
    split <;> rfl
  | claim n =>
    rw [CallRegistry.operate, issued, ids_claim]
    rfl

theorem consumed_operate (name : String) (op : Operation) :
    (registry.operate op).2.consumed name = registry.consumed name +
      (Operation.claimed? name (op, (registry.operate op).1)).toList.length := by
  cases op with
  | record n id =>
    rw [CallRegistry.operate, consumed_record]
    rfl
  | claim n =>
    rw [CallRegistry.operate, consumed_claim, Operation.claimed?]
    by_cases hn : n = name
    · cases (registry.claim n).1 <;> simp [hn]
    · simp [hn]

theorem queue_operate_of_ne {name : String} {op : Operation} (h : op.name ≠ name) :
    (registry.operate op).2.queue name = registry.queue name := by
  cases op with
  | record n id =>
    rw [Operation.name] at h
    rw [CallRegistry.operate, queue_record, if_neg h]
  | claim n => rw [CallRegistry.operate, queue_claim, if_neg fun hc => h hc.1]

theorem operate_congr {registry' : CallRegistry} {op : Operation}
    (h : registry.queue op.name = registry'.queue op.name) :
    (registry.operate op).1 = (registry'.operate op).1 ∧
      (registry.operate op).2.queue op.name = (registry'.operate op).2.queue op.name := by
  cases op with
  | record name id =>
    refine ⟨rfl, ?_⟩
    rw [CallRegistry.operate, CallRegistry.operate, Operation.name, queue_record, queue_record,
      if_pos rfl, if_pos rfl]
    exact congrArg (CallQueue.record · id) h
  | claim name =>
    rw [Operation.name] at h
    rw [CallRegistry.operate, CallRegistry.operate, Operation.name, fst_claim, fst_claim,
      queue_claim, queue_claim, h]
    exact ⟨rfl, rfl⟩

section Runs

open Operation (transcript after)

theorem recordedFor_cons (name : String) (op : Operation) (rest : List Operation) :
    recordedFor name (op :: rest) = (op.recorded? name).toList ++ recordedFor name rest := by
  rw [recordedFor, List.filterMap_cons]
  split
  · next h => rw [h]; rfl
  · next h => rw [h]; rfl

theorem claimedFor_cons (name : String) (entry : Operation × Option Json)
    (rest : List (Operation × Option Json)) :
    claimedFor name (entry :: rest) =
      (Operation.claimed? name entry).toList ++ claimedFor name rest := by
  rw [claimedFor, List.filterMap_cons]
  split
  · next h => rw [h]; rfl
  · next h => rw [h]; rfl

theorem unanswered_after (h : registry.Sound) (name : String) (ops : List Operation) :
    registry.unanswered name ++ recordedFor name ops =
      claimedFor name (transcript operate registry ops) ++
        (after operate registry ops).unanswered name := by
  induction ops generalizing registry with
  | nil => exact List.append_nil _
  | cons op rest ih =>
    rw [recordedFor_cons, ← List.append_assoc, unanswered_operate h, List.append_assoc,
      ih (h.operate op), transcript, claimedFor_cons, List.append_assoc, after]

theorem issued_after (name : String) (ops : List Operation) :
    (after operate registry ops).issued name =
      registry.issued name + (recordedFor name ops).length := by
  induction ops generalizing registry with
  | nil => rfl
  | cons op rest ih =>
    rw [after, ih, issued_operate, recordedFor_cons, List.length_append, Nat.add_assoc]

theorem consumed_after (name : String) (ops : List Operation) :
    (after operate registry ops).consumed name =
      registry.consumed name + (claimedFor name (transcript operate registry ops)).length := by
  induction ops generalizing registry with
  | nil => rfl
  | cons op rest ih =>
    rw [after, ih, consumed_operate, transcript, claimedFor_cons, List.length_append,
      Nat.add_assoc]

theorem filter_transcript {registry' : CallRegistry} {name : String}
    (h : registry.queue name = registry'.queue name) (ops : List Operation) :
    (transcript operate registry ops).filter (fun entry => entry.1.name = name) =
        transcript operate registry' (ops.filter fun op => op.name = name) ∧
      (after operate registry ops).queue name =
        (after operate registry' (ops.filter fun op => op.name = name)).queue name := by
  induction ops generalizing registry registry' with
  | nil => exact ⟨rfl, h⟩
  | cons op rest ih =>
    by_cases hn : op.name = name
    · subst hn
      obtain ⟨hgiven, hnext⟩ := operate_congr h
      obtain ⟨htail, hlast⟩ := ih hnext
      simp only [transcript, after, List.filter_cons, decide_true, if_true]
      exact ⟨by rw [hgiven, htail], hlast⟩
    · have hnext : (registry.operate op).2.queue name = registry'.queue name :=
        (queue_operate_of_ne hn).trans h
      simp only [transcript, after, List.filter_cons, hn, decide_false, Bool.false_eq_true,
        if_false]
      exact ih hnext

end Runs

end CallRegistry

/-- The registry as tables: the identifiers by name and position, and for each name how many were
recorded and how many are used up. -/
structure CallTables where
  ids : String × Nat → Option Json := fun _ => none
  issued : String → Option Nat := fun _ => none
  consumed : String → Option Nat := fun _ => none

namespace CallTables

def record (tables : CallTables) (name : String) (id : Json) : CallTables :=
  let position := (tables.issued name).getD 0
  { tables with
    ids := Function.update tables.ids (name, position) (some id)
    issued := Function.update tables.issued name (some (position + 1)) }

def claim (tables : CallTables) (name : String) : Option Json × CallTables :=
  let position := (tables.consumed name).getD 0
  match tables.ids (name, position) with
  | none =>
    (none, { tables with consumed := Function.update tables.consumed name (some position) })
  | some id =>
    (some id,
      { tables with consumed := Function.update tables.consumed name (some (position + 1)) })

def operate (tables : CallTables) : CallRegistry.Operation → Option Json × CallTables
  | .record name id => (none, tables.record name id)
  | .claim name => tables.claim name

structure Lays (tables : CallTables) (registry : CallRegistry) : Prop where
  ids : ∀ name position, tables.ids (name, position) = (registry.queue name).ids[position]?
  issued : ∀ name, (tables.issued name).getD 0 = registry.issued name
  consumed : ∀ name, (tables.consumed name).getD 0 = registry.consumed name

variable {tables : CallTables} {registry : CallRegistry}

theorem lays_initial : Lays {} {} := ⟨fun _ _ => rfl, fun _ => rfl, fun _ => rfl⟩

theorem getElem?_record (queue : CallQueue) (id : Json) (position : Nat) :
    (queue.record id).ids[position]? =
      if position = queue.ids.length then some id else queue.ids[position]? := by
  rw [CallQueue.record]
  grind

theorem Lays.record (h : Lays tables registry) (name : String) (id : Json) :
    Lays (tables.record name id) (registry.record name id) := by
  refine ⟨fun other position => ?_, fun other => ?_, fun other => ?_⟩
  · simp only [CallTables.record, CallRegistry.queue_record, Function.update_apply, h.issued, h.ids,
      Prod.mk.injEq]
    by_cases hn : name = other
    · subst hn
      rw [if_pos rfl, getElem?_record]
      simp only [true_and, CallRegistry.issued]
    · rw [if_neg hn, if_neg fun hc => hn hc.1.symm]
  · rw [CallRegistry.issued_record, CallTables.record]
    dsimp only
    rw [Function.update_apply, h.issued]
    by_cases hn : name = other
    · rw [if_pos hn, if_pos hn.symm, Option.getD_some, hn]
    · rw [if_neg hn, if_neg (Ne.symm hn), h.issued, Nat.add_zero]
  · rw [CallRegistry.consumed_record]
    exact h.consumed other

theorem Lays.claim (h : Lays tables registry) (name : String) :
    (tables.claim name).1 = (registry.claim name).1 ∧
      Lays (tables.claim name).2 (registry.claim name).2 := by
  have hgiven : tables.ids (name, (tables.consumed name).getD 0) = (registry.claim name).1 := by
    rw [CallRegistry.fst_claim, h.ids, h.consumed]
    rfl
  -- The table of identifiers is read only, and the counter is written even if it stays as it is.
  have hlays (count : Nat) (hc : count = (registry.claim name).2.consumed name) :
      Lays { tables with consumed := Function.update tables.consumed name (some count) }
        (registry.claim name).2 := by
    refine ⟨fun other position => ?_, fun other => ?_, fun other => ?_⟩
    · rw [CallRegistry.ids_claim]
      exact h.ids other position
    · rw [CallRegistry.issued, CallRegistry.ids_claim]
      exact h.issued other
    · dsimp only
      rw [Function.update_apply]
      by_cases hn : other = name
      · rw [if_pos hn, hn, Option.getD_some, hc]
      · rw [if_neg hn, h.consumed, CallRegistry.consumed_claim,
          if_neg fun hc => hn hc.1.symm, Nat.add_zero]
  rw [CallTables.claim, hgiven]
  rw [CallRegistry.consumed_claim, ← h.consumed] at hlays
  cases hid : (registry.claim name).1 with
  | none => exact ⟨rfl, hlays _ (by simp [hid])⟩
  | some id => exact ⟨rfl, hlays _ (by simp [hid])⟩

theorem Lays.operate (h : Lays tables registry) (op : CallRegistry.Operation) :
    (tables.operate op).1 = (registry.operate op).1 ∧
      Lays (tables.operate op).2 (registry.operate op).2 := by
  cases op with
  | record name id => exact ⟨rfl, h.record name id⟩
  | claim name => exact h.claim name

end CallTables

namespace CallRegistry

open Operation (transcript after)

structure Served (ops : List Operation) (name : String) : Prop where
  inOrder : ∃ waiting,
    recordedFor name ops = claimedFor name (transcript operate {} ops) ++ waiting ∧
      ((after operate {} ops).claim name).1 = waiting.head?
  issued : (after operate {} ops).issued name = (recordedFor name ops).length
  consumed : (after operate {} ops).consumed name =
    (claimedFor name (transcript operate {} ops)).length
  consumed_le : (after operate {} ops).consumed name ≤ (after operate {} ops).issued name
  alone : (transcript operate {} ops).filter (fun entry => entry.1.name = name) =
    transcript operate {} (ops.filter fun op => op.name = name)

/-- Whatever a registry is asked, it is a family of independent queues; and tables that are asked
the same give the same answers and the same counts. -/
theorem first_in_first_out (ops : List Operation) :
    (∀ name, Served ops name) ∧
      transcript CallTables.operate {} ops = transcript operate {} ops ∧
      ∀ name,
        ((after CallTables.operate {} ops).issued name).getD 0 =
          (after operate {} ops).issued name ∧
        ((after CallTables.operate {} ops).consumed name).getD 0 =
          (after operate {} ops).consumed name := by
  obtain ⟨hsame, hlays⟩ := Operation.transcript_eq (R := CallTables.Lays)
    (fun _ _ op h => h.operate op) CallTables.lays_initial ops
  refine ⟨fun name => ?_, hsame, fun name => ⟨hlays.issued name, hlays.consumed name⟩⟩
  have horder : recordedFor name ops = _ ++ (after operate {} ops).unanswered name :=
    unanswered_after sound_initial name ops
  have hissued : (after operate {} ops).issued name = (recordedFor name ops).length :=
    (issued_after name ops).trans (Nat.zero_add _)
  have hconsumed : (after operate {} ops).consumed name =
      (claimedFor name (transcript operate {} ops)).length :=
    (consumed_after name ops).trans (Nat.zero_add _)
  refine ⟨⟨_, horder, fst_claim_eq_head? ..⟩, hissued, hconsumed, ?_, (filter_transcript rfl ops).1⟩
  rw [hissued, hconsumed, horder, List.length_append]
  exact Nat.le_add_right ..

example :
    (transcript operate {} [.claim "f", .record "f" (.string "a"), .record "g" (.string "b"),
      .record "f" (.string "c"), .claim "f", .claim "g", .claim "f", .claim "f"]).map (·.2) =
    [none, none, none, none, some (.string "a"), some (.string "b"), some (.string "c"), none] := by
  decide

end CallRegistry

end Dialogue.Conversation
