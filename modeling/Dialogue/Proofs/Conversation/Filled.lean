import Dialogue.Proofs.Conversation.Stable

namespace Dialogue

namespace Conversation

def KeepsRole (turn : Json) : Prop :=
  turn.field? "role" = some (.string "user") ∨ turn.field? "role" = some (.string "model")

instance (turn : Json) : Decidable (KeepsRole turn) := inferInstanceAs (Decidable (_ ∨ _))

def Nearest (before : List Json) (nearest : Json) : Prop :=
  ∃ far near, before = far ++ nearest :: near ∧ nearest.isObject = true ∧
    ∀ other ∈ near, other.isObject = false

/-- What becomes of a turn behind turns that have their roles. -/
inductive Filled (before : List Json) (turn : Json) : Json → Prop where
  | noTurn (h : turn.isObject = false) : Filled before turn turn
  | kept (h : KeepsRole turn) : Filled before turn turn
  | first {filled : Json} (hk : ¬ KeepsRole turn) (hb : ∀ other ∈ before, other.isObject = false)
      (h : Json.WithField "role" (.string "user") turn filled) : Filled before turn filled
  | afterUser {nearest filled : Json} (hk : ¬ KeepsRole turn) (hb : Nearest before nearest)
      (hr : nearest.field? "role" = some (.string "user"))
      (h : Json.WithField "role" (.string "model") turn filled) : Filled before turn filled
  | afterModel {nearest filled : Json} (hk : ¬ KeepsRole turn) (hb : Nearest before nearest)
      (hr : nearest.field? "role" = some (.string "model"))
      (h : Json.WithField "role" (.string "user") turn filled) : Filled before turn filled

structure RolesFilled (turns filled : List Json) : Prop where
  length : filled.length = turns.length
  turn : ∀ k turn sent, turns[k]? = some turn → filled[k]? = some sent →
    Filled (filled.take k) turn sent

variable {turn sent : Json} {turns filled front before : List Json} {previous : Option Role}

theorem Nearest.mem {nearest : Json} (h : Nearest before nearest) : nearest ∈ before := by
  obtain ⟨far, near, rfl, -⟩ := h
  exact List.mem_append_right _ (.head _)

theorem Nearest.isObject {nearest : Json} (h : Nearest before nearest) :
    nearest.isObject = true := by
  obtain ⟨far, near, -, ho, -⟩ := h
  exact ho

theorem keepsRole_iff : KeepsRole turn ↔ (Turn.role turn).isLegal = true := by
  rw [isLegal_iff, KeepsRole, Turn.role_eq_iff rfl, Turn.role_eq_iff rfl]

def roleBefore (before : List Json) : Option Role :=
  (before.filter Json.isObject).getLast?.map Turn.role

def filledTurn (previous : Option Role) (turn : Json) : Json :=
  if (Turn.role turn).isLegal then turn
  else if turn.isObject then withRole turn (inferRole previous)
  else turn

theorem fillRoles_singleton (previous : Option Role) (turn : Json) :
    fillRoles previous [turn] = [filledTurn previous turn] := by
  rw [fillRoles, filledTurn]
  split
  · rfl
  · split
    · rfl
    · rfl

theorem withField_withRole {role : Role} {text : String} (ho : turn.isObject = true)
    (h : role.text? = some text) :
    Json.WithField "role" (.string text) turn (withRole turn role) := by
  rw [Json.withField_iff ho, withRole, h]

theorem roleBefore_eq_none_iff :
    roleBefore before = none ↔ ∀ other ∈ before, other.isObject = false := by
  rw [roleBefore, Option.map_eq_none_iff, List.getLast?_eq_none_iff, List.filter_eq_nil_iff]
  simp only [Bool.not_eq_true]

theorem Nearest.roleBefore_eq {nearest : Json} (h : Nearest before nearest) :
    roleBefore before = some (Turn.role nearest) := by
  obtain ⟨far, near, rfl, ho, hn⟩ := h
  have hnear : near.filter Json.isObject = [] :=
    List.filter_eq_nil_iff.2 fun other hm => Bool.eq_false_iff.1 (hn other hm)
  rw [roleBefore, List.filter_append, List.filter_cons_of_pos ho, hnear, List.getLast?_concat,
    Option.map_some]

theorem exists_nearest {role : Role} (h : roleBefore before = some role) :
    ∃ nearest, Nearest before nearest ∧ Turn.role nearest = role := by
  obtain ⟨nearest, hl, hr⟩ := Option.map_eq_some_iff.1 h
  obtain ⟨others, hf⟩ := List.getLast?_eq_some_iff.1 hl
  obtain ⟨front, back, rfl, -, hb⟩ := List.filter_eq_append_iff.1 hf
  obtain ⟨far, near, rfl, -, ho, hn⟩ := List.filter_eq_cons_iff.1 hb
  refine ⟨nearest, ⟨front ++ far, near, by rw [List.append_assoc], ho, fun other hm => ?_⟩, hr⟩
  exact Bool.eq_false_iff.2 (List.filter_eq_nil_iff.1 hn other hm)

theorem roleBefore_concat (before : List Json) (turn : Json) :
    roleBefore (before ++ [turn]) =
      if turn.isObject then some (Turn.role turn) else roleBefore before := by
  rw [roleBefore, List.filter_append]
  cases ho : turn.isObject with
  | true =>
    rw [List.filter_cons_of_pos ho, List.filter_nil, List.getLast?_concat, Option.map_some,
      if_pos rfl]
  | false =>
    rw [List.filter_cons_of_neg (Bool.eq_false_iff.1 ho), List.filter_nil, List.append_nil,
      ← roleBefore, if_neg Bool.false_ne_true]

theorem roleBefore_filledTurn (h : roleBefore before = previous) (turn : Json) :
    roleBefore (before ++ [filledTurn previous turn]) = roleAfter previous turn := by
  rw [roleBefore_concat, roleAfter, filledTurn, h]
  split
  · next hl => rw [if_pos (isObject_of_isLegal hl)]
  · split
    · next ho =>
      rw [isObject_withRole, if_pos ho, role_withRole ho (isLegal_inferRole previous)]
    · rfl

theorem Filled.eq (h : Filled before turn sent) : sent = filledTurn (roleBefore before) turn := by
  rw [filledTurn]
  cases h with
  | noTurn ho =>
    rw [Turn.role_of_not_isObject ho, if_neg (by decide), if_neg (Bool.eq_false_iff.1 ho)]
  | kept hk => rw [if_pos (keepsRole_iff.1 hk)]
  | first hk hb h =>
    have ho := h.isObject
    rw [if_neg (keepsRole_iff.not.1 hk), if_pos ho, roleBefore_eq_none_iff.2 hb]
    exact (Json.withField_iff ho).1 h
  | afterUser hk hb hr h =>
    have ho := h.isObject
    have hp : roleBefore before = some .user :=
      hb.roleBefore_eq.trans (congrArg some ((Turn.role_eq_iff rfl).2 hr))
    rw [if_neg (keepsRole_iff.not.1 hk), if_pos ho, hp]
    exact (Json.withField_iff ho).1 h
  | afterModel hk hb hr h =>
    have ho := h.isObject
    have hp : roleBefore before = some .model :=
      hb.roleBefore_eq.trans (congrArg some ((Turn.role_eq_iff rfl).2 hr))
    rw [if_neg (keepsRole_iff.not.1 hk), if_pos ho, hp]
    exact (Json.withField_iff ho).1 h

theorem filled_filledTurn (hb : ∀ other ∈ before, Spoken other) (turn : Json) :
    Filled before turn (filledTurn (roleBefore before) turn) := by
  rw [filledTurn]
  split
  · next hl => exact .kept (keepsRole_iff.2 hl)
  · next hl =>
    have hk := keepsRole_iff.not.2 hl
    split
    · next ho =>
      cases hp : roleBefore before with
      | none => exact .first hk (roleBefore_eq_none_iff.1 hp) (withField_withRole ho rfl)
      | some role =>
        obtain ⟨nearest, hn, rfl⟩ := exists_nearest hp
        rcases hb nearest hn.mem hn.isObject with hr | hr
        · rw [hr]
          exact .afterUser hk hn ((Turn.role_eq_iff rfl).1 hr) (withField_withRole ho rfl)
        · rw [hr]
          exact .afterModel hk hn ((Turn.role_eq_iff rfl).1 hr) (withField_withRole ho rfl)
    · next ho => exact .noTurn (Bool.eq_false_iff.2 ho)

theorem foldl_roleAfter_eq (turns : List Json) :
    turns.foldl roleAfter none = roleBefore (fillRoles none turns) := by
  induction turns using List.reverseRecOn with
  | nil => rfl
  | append_singleton front turn ih =>
    rw [List.foldl_append, List.foldl_cons, List.foldl_nil, fillRoles_append, fillRoles_singleton,
      roleBefore_filledTurn ih.symm]

theorem fillRoles_snoc (front : List Json) (turn : Json) :
    fillRoles none (front ++ [turn]) =
      fillRoles none front ++ [filledTurn (roleBefore (fillRoles none front)) turn] := by
  rw [fillRoles_append, fillRoles_singleton, foldl_roleAfter_eq]

theorem rolesFilled_concat :
    RolesFilled (front ++ [turn]) (before ++ [sent]) ↔
      RolesFilled front before ∧ Filled before turn sent := by
  constructor
  · intro h
    have hl : before.length = front.length := by simpa using h.length
    refine ⟨⟨hl, fun k t s ht hs => ?_⟩, ?_⟩
    · have hk : k < before.length := (List.getElem?_eq_some_iff.1 hs).1
      have hfilled := h.turn k t s (by rwa [List.getElem?_append_left (hl ▸ hk)])
        (by rwa [List.getElem?_append_left hk])
      rwa [List.take_append_of_le_length hk.le] at hfilled
    · have hfilled := h.turn before.length turn sent (by rw [hl, List.getElem?_concat_length])
        List.getElem?_concat_length
      rwa [List.take_left] at hfilled
  · rintro ⟨h, hlast⟩
    refine ⟨by simpa using h.length, fun k t s ht hs => ?_⟩
    rcases Nat.lt_or_ge k before.length with hk | hk
    · rw [List.getElem?_append_left (h.length ▸ hk)] at ht
      rw [List.getElem?_append_left hk] at hs
      rw [List.take_append_of_le_length hk.le]
      exact h.turn k t s ht hs
    · obtain rfl : k = before.length := by
        have := (List.getElem?_eq_some_iff.1 hs).1
        rw [List.length_append, List.length_singleton] at this
        omega
      rw [h.length, List.getElem?_concat_length] at ht
      rw [List.getElem?_concat_length] at hs
      cases ht
      cases hs
      rwa [List.take_left]

theorem rolesFilled_fillRoles (turns : List Json) : RolesFilled turns (fillRoles none turns) := by
  induction turns using List.reverseRecOn with
  | nil => exact ⟨rfl, nofun⟩
  | append_singleton front turn ih =>
    rw [fillRoles_snoc, rolesFilled_concat]
    exact ⟨ih, filled_filledTurn spoken_fillRoles turn⟩

theorem RolesFilled.eq (h : RolesFilled turns filled) : filled = fillRoles none turns := by
  induction turns using List.reverseRecOn generalizing filled with
  | nil => exact List.eq_nil_of_length_eq_zero h.length
  | append_singleton front turn ih =>
    obtain ⟨before, sent, rfl⟩ : ∃ before sent, filled = before ++ [sent] := by
      rcases List.eq_nil_or_concat filled with rfl | ⟨before, sent, rfl⟩
      · simpa using h.length
      · exact ⟨before, sent, List.concat_eq_append⟩
    obtain ⟨hfront, hlast⟩ := rolesFilled_concat.1 h
    obtain rfl := ih hfront
    rw [fillRoles_snoc, hlast.eq]

theorem filter_fillRoles (previous : Option Role) (turns : List Json) :
    (fillRoles previous turns).filter Json.isObject =
      fillRoles previous (turns.filter Json.isObject) := by
  induction turns generalizing previous with
  | nil => rfl
  | cons turn rest ih =>
    rw [fillRoles]
    split
    · next hl =>
      have ho := isObject_of_isLegal hl
      rw [List.filter_cons_of_pos ho, List.filter_cons_of_pos ho, fillRoles, if_pos hl, ih]
    · next hl =>
      split
      · next ho =>
        have hw := (isObject_withRole turn (inferRole previous)).trans ho
        rw [List.filter_cons_of_pos hw, List.filter_cons_of_pos ho, fillRoles, if_neg hl,
          if_pos ho, ih]
      · next ho => rw [List.filter_cons_of_neg ho, List.filter_cons_of_neg ho, ih]

theorem fillRoles_fillRoles (turns : List Json) :
    fillRoles none (fillRoles none turns) = fillRoles none turns :=
  fillRoles_of_spoken spoken_fillRoles

def speakerAt (k : Nat) : String := if k % 2 = 0 then "user" else "model"

theorem inferRole_inferRole (previous : Option Role) :
    inferRole (some (inferRole (some (inferRole previous)))) = inferRole previous := by
  rcases isLegal_iff.1 (isLegal_inferRole previous) with h | h
  · rw [h]
    rfl
  · rw [h]
    rfl

theorem role_getElem?_fillRoles (ho : ∀ turn ∈ turns, turn.isObject = true)
    (hk : ∀ turn ∈ turns, ¬ KeepsRole turn) {k : Nat}
    (h : (fillRoles previous turns)[k]? = some sent) :
    Turn.role sent =
      if k % 2 = 0 then inferRole previous else inferRole (some (inferRole previous)) := by
  induction turns generalizing previous k with
  | nil => cases h
  | cons turn rest ih =>
    have hturn := ho turn (.head _)
    rw [fillRoles, if_neg (keepsRole_iff.not.1 (hk turn (.head _))), if_pos hturn] at h
    cases k with
    | zero =>
      cases h
      rw [role_withRole hturn (isLegal_inferRole previous), if_pos rfl]
    | succ k =>
      rw [ih (fun t ht => ho t (.tail _ ht)) (fun t ht => hk t (.tail _ ht)) h,
        inferRole_inferRole]
      rcases Nat.mod_two_eq_zero_or_one k with hp | hp
      · rw [if_pos hp, if_neg (by omega)]
      · rw [if_neg (by omega), if_pos (by omega)]

theorem alternate (hk : ∀ turn ∈ turns, ¬ KeepsRole turn) {k : Nat}
    (h : ((fillRoles none turns).filter Json.isObject)[k]? = some sent) :
    sent.field? "role" = some (.string (speakerAt k)) := by
  rw [filter_fillRoles] at h
  have hr := role_getElem?_fillRoles (fun turn ht => (List.mem_filter.1 ht).2)
    (fun turn ht => hk turn (List.mem_filter.1 ht).1) h
  rw [speakerAt]
  split at hr
  · next hp => rw [if_pos hp]; exact (Turn.role_eq_iff rfl).1 hr
  · next hp => rw [if_neg hp]; exact (Turn.role_eq_iff rfl).1 hr

end Conversation

namespace Stage

open Conversation

variable {context : Context} {document : Json} {turns : List Json}

/-- Every turn of a conversation gets the one role that it can have behind the turns before it. -/
theorem roles_filled (ids : IdSource)
    (h : document.get? context.conversationPath = some (.array turns)) :
    (Stage.roles.apply context ids document).failure = none ∧
    (Stage.roles.apply context ids document).ids = ids ∧
    ∃ filled,
      document.replace? context.conversationPath (.array filled) =
        some (Stage.roles.apply context ids document).document ∧
      RolesFilled turns filled ∧
      (∀ other, RolesFilled turns other → other = filled) ∧
      RolesFilled (turns.filter Json.isObject) (filled.filter Json.isObject) ∧
      (∀ others, (Stage.roles.apply context others
        (Stage.roles.apply context ids document).document).document =
          (Stage.roles.apply context ids document).document) ∧
      ((∀ turn ∈ turns, ¬ KeepsRole turn) →
        ∀ k (sent : Json), (filled.filter Json.isObject)[k]? = some sent →
          sent.field? "role" = some (.string (speakerAt k))) := by
  have ht := turns?_eq_some_iff.2 h
  have hy := roles_yields context ids document
  refine ⟨hy.failure, hy.ids, Conversation.fillRoles none turns, ?_, rolesFilled_fillRoles turns,
    fun other ho => ho.eq, ?_, fun others => ?_, fun hk k sent hs => alternate hk hs⟩
  · rw [replace?_turns ht, hy.document]
  · rw [filter_fillRoles]
    exact rolesFilled_fillRoles _
  · rw [(roles_yields context others _).document, hy.document, Context.onTurns, Context.onTurns,
      Json.modify_modify, Json.onItems_comp]
    apply congrArg (Json.modify · document context.conversationPath)
    exact congrArg Json.onItems (funext fillRoles_fillRoles)

end Stage

def Conversation.unspoken : List Json :=
  [.object [("role", .string "assistant"), ("parts", .array [])], .string "aside", .object [],
    .object [("role", .null), ("parts", .array [])]]

theorem Stage.roles_filled_unspoken :
    ∃ filled,
      (Stage.roles.apply .enveloping .counting
        (.object [("request", .object [("contents", .array Conversation.unspoken)])])).document =
        .object [("request", .object [("contents", .array filled)])] ∧
      Conversation.RolesFilled Conversation.unspoken filled ∧
      ∀ k (sent : Json), (filled.filter Json.isObject)[k]? = some sent →
        sent.field? "role" = some (.string (Conversation.speakerAt k)) := by
  have h : (Json.object [("request", .object [("contents", .array Conversation.unspoken)])]).get?
      (Context.conversationPath .enveloping) =
    some (.array Conversation.unspoken) := rfl
  obtain ⟨-, -, filled, hd, hf, -, -, -, halternate⟩ := roles_filled .counting h
  exact ⟨filled, (Option.some.inj hd).symm, hf, halternate (by decide)⟩

end Dialogue
