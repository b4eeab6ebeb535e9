import Dialogue.Conversation.Roles
import Dialogue.Proofs.Turn
import Mathlib.Data.List.DropRight
import Mathlib.Data.List.Induction

/-!
The roles that turns are sent with.  A turn of a function has none of its own: such turns take
turns as the user's and the model's, and a conversation is misread where one of them becomes the
model's.
-/

namespace Dialogue.Conversation

theorem isLegal_iff {role : Role} : role.isLegal = true ↔ role = .user ∨ role = .model := by
  cases role <;> simp [Role.isLegal]

theorem role_withRole {turn : Json} (h : turn.isObject = true) {role : Role}
    (hr : role.isLegal = true) : Turn.role (withRole turn role) = role := by
  have hput : ∀ text, Turn.role (turn.putField "role" (.string text)) = Role.ofText text := by
    intro text
    rw [Turn.role, Json.field?_putField_self h]
  cases role with
  | user => exact hput "user"
  | model => exact hput "model"
  | function => cases hr
  | unset => cases hr
  | invalid => cases hr

theorem isObject_withRole (turn : Json) (role : Role) :
    (withRole turn role).isObject = turn.isObject := by
  rw [withRole]
  split
  · exact Json.isObject_putField ..
  · rfl

theorem isLegal_inferRole (previous : Option Role) : (inferRole previous).isLegal = true := by
  rw [inferRole]
  split <;> rfl

theorem fillRoles_of_legal {previous : Option Role} {turns : List Json}
    (h : ∀ turn ∈ turns, (Turn.role turn).isLegal = true) : fillRoles previous turns = turns := by
  induction turns generalizing previous with
  | nil => rfl
  | cons turn rest ih =>
    rw [fillRoles, if_pos (h turn (.head _)), ih fun t ht => h t (.tail _ ht)]

theorem parts?_withRole (turn : Json) (role : Role) :
    Turn.parts? (withRole turn role) = Turn.parts? turn := by
  rw [withRole]
  split
  · rw [Turn.parts?, Json.field?_putField_of_ne (by decide), Turn.parts?]
  · rfl

theorem parts_withRole (turn : Json) (role : Role) :
    Turn.parts (withRole turn role) = Turn.parts turn := by
  rw [Turn.parts, parts?_withRole, Turn.parts]

def roleAfter (previous : Option Role) (turn : Json) : Option Role :=
  if (Turn.role turn).isLegal then some (Turn.role turn)
  else if turn.isObject then some (inferRole previous)
  else previous

theorem fillRoles_append (previous : Option Role) (front back : List Json) :
    fillRoles previous (front ++ back) =
      fillRoles previous front ++ fillRoles (front.foldl roleAfter previous) back := by
  induction front generalizing previous with
  | nil => rfl
  | cons turn rest ih =>
    rw [List.cons_append, fillRoles, fillRoles, List.foldl_cons, roleAfter]
    split
    · rw [ih, List.cons_append]
    · split
      · rw [ih, List.cons_append]
      · rw [ih, List.cons_append]

def HasSpeaker (turn : Json) : Prop :=
  Turn.role turn = .user ∨ Turn.role turn = .model ∨ Turn.role turn = .function

instance (turn : Json) : Decidable (HasSpeaker turn) := inferInstanceAs (Decidable (_ ∨ _))

def functionsAtEnd (turns : List Json) : List Json :=
  turns.rtakeWhile (Turn.role · = .function)

def speakerBefore (turns : List Json) : Option Role :=
  (turns.rdropWhile (Turn.role · = .function)).getLast?.map Turn.role

/-- The last turn is a function's and is sent as the model's.  Behind a user's turn that happens to
every other turn of functions from the first on, and elsewhere from the second on. -/
def Misread (turns : List Json) : Prop :=
  functionsAtEnd turns ≠ [] ∧
    ((functionsAtEnd turns).length % 2 = 1 ↔ speakerBefore turns = some .user)

instance (turns : List Json) : Decidable (Misread turns) := inferInstanceAs (Decidable (_ ∧ _))

variable {turns front : List Json} {turn : Json}

theorem HasSpeaker.isLegal (h : HasSpeaker turn) (hf : Turn.role turn ≠ .function) :
    (Turn.role turn).isLegal = true := by
  rw [isLegal_iff]
  rcases h with h | h | h
  · exact .inl h
  · exact .inr h
  · exact absurd h hf

theorem isObject_of_role {role : Role} (h : Turn.role turn = role) (hr : role ≠ .unset) :
    turn.isObject = true := by
  cases ho : turn.isObject with
  | true => rfl
  | false => exact absurd (h.symm.trans (Turn.role_of_not_isObject ho)) hr

theorem isObject_of_isLegal (h : (Turn.role turn).isLegal = true) : turn.isObject = true := by
  rcases isLegal_iff.1 h with hr | hr
  · exact isObject_of_role hr nofun
  · exact isObject_of_role hr nofun

theorem HasSpeaker.isObject (h : HasSpeaker turn) : turn.isObject = true := by
  rcases h with h | h | h <;> exact isObject_of_role h nofun

theorem functionsAtEnd_concat (h : Turn.role turn = .function) (front : List Json) :
    functionsAtEnd (front ++ [turn]) = functionsAtEnd front ++ [turn] :=
  List.rtakeWhile_concat_pos _ _ _ (decide_eq_true h)

theorem functionsAtEnd_concat_of_ne (h : Turn.role turn ≠ .function) (front : List Json) :
    functionsAtEnd (front ++ [turn]) = [] :=
  List.rtakeWhile_concat_neg _ _ _ (by simpa using h)

theorem speakerBefore_concat (h : Turn.role turn = .function) (front : List Json) :
    speakerBefore (front ++ [turn]) = speakerBefore front := by
  have hdrop := List.rdropWhile_concat_pos (Turn.role · = .function) front turn (decide_eq_true h)
  rw [speakerBefore, hdrop, speakerBefore]

theorem speakerBefore_concat_of_ne (h : Turn.role turn ≠ .function) (front : List Json) :
    speakerBefore (front ++ [turn]) = some (Turn.role turn) := by
  have hdrop := List.rdropWhile_concat_neg (Turn.role · = .function) front turn (by simpa using h)
  rw [speakerBefore, hdrop, List.getLast?_concat, Option.map_some]

theorem not_misread_concat (h : Turn.role turn ≠ .function) (front : List Json) :
    ¬ Misread (front ++ [turn]) :=
  fun hm => hm.1 (functionsAtEnd_concat_of_ne h front)

theorem misread_concat (h : Turn.role turn = .function) (hf : functionsAtEnd front ≠ []) :
    Misread (front ++ [turn]) ↔ ¬ Misread front := by
  rw [Misread, Misread, functionsAtEnd_concat h, speakerBefore_concat h, List.length_append,
    List.length_singleton]
  have hne : functionsAtEnd front ++ [turn] ≠ [] := List.append_ne_nil_of_right_ne_nil _ nofun
  simp only [hne, hf, ne_eq, not_false_eq_true, true_and]
  by_cases hs : speakerBefore front = some .user
  · simp only [hs, iff_true]
    omega
  · simp only [hs, iff_false]
    omega

theorem misread_concat_first (h : Turn.role turn = .function) (hf : functionsAtEnd front = []) :
    Misread (front ++ [turn]) ↔ speakerBefore front = some .user := by
  rw [Misread, functionsAtEnd_concat h, speakerBefore_concat h, hf]
  simp

theorem foldl_roleAfter (h : ∀ turn ∈ turns, HasSpeaker turn) :
    turns.foldl roleAfter none =
      if functionsAtEnd turns = [] then speakerBefore turns
      else some (if Misread turns then .model else .user) := by
  induction turns using List.reverseRecOn with
  | nil => rfl
  | append_singleton front turn ih =>
    have hlast := h turn (List.mem_append_right _ (.head _))
    have ih := ih fun t ht => h t (List.mem_append_left _ ht)
    rw [List.foldl_append, List.foldl_cons, List.foldl_nil, ih]
    by_cases hf : Turn.role turn = .function
    · have hne : functionsAtEnd (front ++ [turn]) ≠ [] := by
        rw [functionsAtEnd_concat hf]
        exact List.append_ne_nil_of_right_ne_nil _ nofun
      rw [roleAfter, hf, if_neg (by decide), if_pos hlast.isObject, if_neg hne]
      congr 1
      -- The first turn of functions goes by the speaker before it, and each other one by the last.
      by_cases hfront : functionsAtEnd front = []
      · rw [if_pos hfront, inferRole]
        simp only [misread_concat_first hf hfront]
      · rw [if_neg hfront, inferRole]
        simp only [misread_concat hf hfront]
        by_cases hm : Misread front <;> simp [hm]
    · rw [roleAfter, if_pos (hlast.isLegal hf), if_pos (functionsAtEnd_concat_of_ne hf front),
        speakerBefore_concat_of_ne hf]

theorem inferRole_foldl (h : ∀ t ∈ front ++ [turn], HasSpeaker t)
    (hf : Turn.role turn = .function) :
    inferRole (front.foldl roleAfter none) =
      if Misread (front ++ [turn]) then .model else .user := by
  have hlast := h turn (List.mem_append_right _ (.head _))
  have hfold := foldl_roleAfter h
  have hne : functionsAtEnd (front ++ [turn]) ≠ [] := by
    rw [functionsAtEnd_concat hf]
    exact List.append_ne_nil_of_right_ne_nil _ nofun
  rw [List.foldl_append, List.foldl_cons, List.foldl_nil, if_neg hne, roleAfter, hf,
    if_neg (by decide), if_pos hlast.isObject] at hfold
  exact Option.some.inj hfold

def readAs (front : List Json) (turn : Json) : Json :=
  if Turn.role turn = .function then
    withRole turn (if Misread (front ++ [turn]) then .model else .user)
  else turn

theorem parts_readAs (front : List Json) (turn : Json) :
    Turn.parts (readAs front turn) = Turn.parts turn := by
  rw [readAs]
  split
  · exact parts_withRole ..
  · rfl

theorem role_readAs (h : HasSpeaker turn) (front : List Json) :
    Turn.role (readAs front turn) =
      if Misread (front ++ [turn]) ∨ Turn.role turn = .model then .model else .user := by
  rw [readAs]
  by_cases hf : Turn.role turn = .function
  · rw [if_pos hf, role_withRole h.isObject (by split <;> rfl), hf]
    simp only [reduceCtorEq, or_false]
  · have hm := not_misread_concat hf front
    rw [if_neg hf]
    rcases h with h | h | h
    · simp [h, hm]
    · simp [h]
    · exact absurd h hf

theorem fillRoles_concat (h : ∀ t ∈ front ++ [turn], HasSpeaker t) :
    fillRoles none (front ++ [turn]) = fillRoles none front ++ [readAs front turn] := by
  have hlast := h turn (List.mem_append_right _ (.head _))
  rw [fillRoles_append, fillRoles, readAs]
  by_cases hf : Turn.role turn = .function
  · rw [inferRole_foldl h hf, hf, if_neg (by decide), if_pos hlast.isObject, if_pos rfl, fillRoles]
  · rw [if_pos (hlast.isLegal hf), if_neg hf, fillRoles]

end Dialogue.Conversation
