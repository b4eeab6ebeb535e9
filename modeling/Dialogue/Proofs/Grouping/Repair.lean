import Dialogue.Proofs.Grouping.Replay

namespace Dialogue

inductive Json.ReadsAs : Json → String → Prop where
  | string (text : String) : ReadsAs (.string text) text
  | compact {value : Json} (h : ∀ text, value ≠ .string text) : ReadsAs value value.compact

theorem Json.readsAs_plainText (value : Json) : value.ReadsAs value.plainText := by
  cases value with
  | string text => exact .string text
  | _ => exact .compact nofun

namespace Conversation

structure Rebuilt (fields rebuilt : Members) : Prop where
  name : Members.get? "name" rebuilt = some (.string
    (if Members.get? "name" fields = some .null then "null" else functionName fields))
  result : ∃ result text, Members.get? "response" fields = some result ∧ result.ReadsAs text ∧
    Members.get? "response" rebuilt = some (.object [("result", .string text)])
  id : ∀ id, Members.get? "id" rebuilt = some id ↔
    Members.get? "id" fields = some id ∧ Part.IsUsable id
  others : ∀ key, key ≠ "name" → key ≠ "response" → key ≠ "id" → Members.get? key rebuilt = none

def rebuild (fields : Members) (result : Json) : Members :=
  [("name", .string (((Members.get? "name" fields).map Json.plainText).getD "")),
    ("response", textResult result.plainText)] ++ (Part.usableId? fields).toList.map ("id", ·)

variable {part value result : Json} {fields : Members}

theorem repairResponse_of_result (hf : part.field? "functionResponse" = some (.object fields))
    (hr : Members.get? "response" fields = some result) (ho : result.isObject = false) :
    repairResponse part = .object [("functionResponse", .object (rebuild fields result))] := by
  rw [repairResponse, hf]
  cases result with
  | object => cases ho
  | _ => simp [hr, rebuild]

theorem repairResponse_of_not_isObject (hf : part.field? "functionResponse" = some value)
    (ho : value.isObject = false) :
    repairResponse part = .object [("functionResponse", .object
      [("name", .string "unknown"), ("response", textResult value.plainText)])] := by
  rw [repairResponse, hf]
  cases value with
  | object => cases ho
  | _ => rfl

theorem plainText_name (fields : Members) :
    ((Members.get? "name" fields).map Json.plainText).getD "" =
      if Members.get? "name" fields = some .null then "null" else functionName fields := by
  rw [functionName]
  cases Members.get? "name" fields with
  | none => rfl
  | some name => cases name <;> simp [Json.plainText, Json.compact, Json.written]

theorem get?_id_rebuild (fields : Members) (result : Json) :
    Members.get? "id" (rebuild fields result) = Part.usableId? fields := by
  cases h : Part.usableId? fields <;> simp [rebuild, h, Members.get?]

theorem rebuilt_rebuild (hr : Members.get? "response" fields = some result) :
    Rebuilt fields (rebuild fields result) where
  name := by simp [rebuild, Members.get?, plainText_name]
  result := ⟨result, _, hr, Json.readsAs_plainText result, rfl⟩
  id id := by rw [get?_id_rebuild, Part.usableId?_eq_some]
  others key hname hresponse hid := by
    cases h : Part.usableId? fields <;>
      simp [rebuild, h, Members.get?, Ne.symm hname, Ne.symm hresponse, Ne.symm hid]

theorem repairResponse_of_gathered (h : Part.Gathered part) : repairResponse part = part :=
  repairResponse_of_isWellFormed (isWellFormed_of_gathered h)

theorem repairResponse_eq_self_iff (h : Part.isResponse part = true) :
    repairResponse part = part ↔ Part.Gathered part :=
  ⟨fun he => he ▸ gathered_repairResponse h, repairResponse_of_gathered⟩

theorem exists_result_of_not_gathered (h : Part.isResponse part = true)
    (hf : part.field? "functionResponse" = some (.object fields)) (hn : ¬ Part.Gathered part) :
    ∃ result, Members.get? "response" fields = some result ∧ result.isObject = false := by
  by_contra hall
  refine hn ⟨h, fields, hf, fun result hr => ?_⟩
  by_contra ho
  exact hall ⟨result, hr, by simpa using ho⟩

theorem exists_rebuilt (h : Part.isResponse part = true)
    (hf : part.field? "functionResponse" = some (.object fields)) (hn : ¬ Part.Gathered part) :
    ∃ rebuilt, repairResponse part = .object [("functionResponse", .object rebuilt)] ∧
      Rebuilt fields rebuilt := by
  obtain ⟨result, hr, ho⟩ := exists_result_of_not_gathered h hf hn
  exact ⟨_, repairResponse_of_result hf hr ho, rebuilt_rebuild hr⟩

theorem exists_kept_id (h : Part.isResponse part = true)
    (hf : part.field? "functionResponse" = some (.object fields)) :
    ∃ kept, (repairResponse part).field? "functionResponse" = some (.object kept) ∧
      ∀ id, Part.IsUsable id → Members.get? "id" fields = some id →
        Members.get? "id" kept = some id := by
  by_cases hg : Part.Gathered part
  · rw [repairResponse_of_gathered hg]
    exact ⟨fields, hf, fun _ _ hid => hid⟩
  · obtain ⟨rebuilt, he, hr⟩ := exists_rebuilt h hf hg
    rw [he]
    exact ⟨rebuilt, rfl, fun id hu hid => (hr.id id).2 ⟨hid, hu⟩⟩

/-- Every response can be sent on once it is repaired, and repairing keeps what identifies it. -/
theorem repairResponse_forwardable (h : Part.kind part = .functionResponse) :
    Part.kind (repairResponse part) = .functionResponse ∧
      Part.Gathered (repairResponse part) ∧
      repairResponse (repairResponse part) = repairResponse part ∧
      (repairResponse part = part ↔ Part.Gathered part) ∧
      (∀ fields, part.field? "functionResponse" = some (.object fields) →
        (∃ kept, (repairResponse part).field? "functionResponse" = some (.object kept) ∧
          ∀ id, Part.IsUsable id → Members.get? "id" fields = some id →
            Members.get? "id" kept = some id) ∧
        (¬ Part.Gathered part →
          ∃ rebuilt, repairResponse part = .object [("functionResponse", .object rebuilt)] ∧
            Rebuilt fields rebuilt)) ∧
      (∀ value, part.field? "functionResponse" = some value → value.isObject = false →
        ∃ text, value.ReadsAs text ∧
          repairResponse part = .object [("functionResponse", .object
            [("name", .string "unknown"), ("response", .object [("result", .string text)])])]) := by
  have hr : Part.isResponse part = true := decide_eq_true h
  have hg : Part.Gathered (repairResponse part) := gathered_repairResponse hr
  refine ⟨of_decide_eq_true hg.isResponse, hg, repairResponse_of_gathered hg,
    repairResponse_eq_self_iff hr, fun fields hf => ?_, fun value hf ho => ?_⟩
  · exact ⟨exists_kept_id hr hf, exists_rebuilt hr hf⟩
  · exact ⟨_, Json.readsAs_plainText value, repairResponse_of_not_isObject hf ho⟩

def unnamedResponse : Json :=
  .object [("functionResponse", .object
    [("id", .number "7"), ("name", .null), ("response", .string "done"), ("willContinue", .null)])]

theorem repairResponse_unnamedResponse :
    Part.kind unnamedResponse = .functionResponse ∧ ¬ Part.Gathered unnamedResponse ∧
      Rebuilt
        [("id", .number "7"), ("name", .null), ("response", .string "done"),
          ("willContinue", .null)]
        [("name", .string "null"), ("response", .object [("result", .string "done")]),
          ("id", .number "7")] := by
  have hk : Part.kind unnamedResponse = .functionResponse := by decide
  have hs : repairResponse unnamedResponse = .object [("functionResponse", .object
      [("name", .string "null"), ("response", .object [("result", .string "done")]),
        ("id", .number "7")])] := by rfl
  obtain ⟨-, -, -, hsame, hobject, -⟩ := repairResponse_forwardable hk
  have hn : ¬ Part.Gathered unnamedResponse := fun hg => absurd (hsame.2 hg) (by decide)
  obtain ⟨rebuilt, he, hr⟩ := (hobject _ rfl).2 hn
  rw [hs] at he
  cases he
  exact ⟨hk, hn, hr⟩

end Conversation

end Dialogue
