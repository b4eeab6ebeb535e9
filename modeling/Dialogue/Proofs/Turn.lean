import Dialogue.Proofs.Json.Fields
import Dialogue.Turn

namespace Dialogue

namespace Part

theorem kind_congr {p q : Json}
    (hc : p.field? "functionCall" = q.field? "functionCall")
    (hr : p.field? "functionResponse" = q.field? "functionResponse")
    (ht : p.field? "thought" = q.field? "thought")
    (hx : p.field? "text" = q.field? "text") : kind p = kind q := by
  unfold kind isThought
  rw [hc, hr, ht, hx]

theorem kind_of_functionCall {part : Json} {fields : Members}
    (h : part.field? "functionCall" = some (.object fields)) : kind part = .functionCall := by
  rw [kind, h]
  rfl

theorem isCall_eq (part : Json) :
    isCall part = (part.field? "functionCall").any Json.isObject := by
  unfold isCall kind
  cases (part.field? "functionCall").any Json.isObject with
  | true => rfl
  | false =>
    simp only [Bool.false_eq_true, ↓reduceIte, decide_eq_false_iff_not]
    repeat (split; · exact nofun)
    exact nofun

theorem isResponse_eq (part : Json) :
    isResponse part = (!isCall part && (part.field? "functionResponse").isSome) := by
  rw [isCall_eq]
  unfold isResponse kind
  cases (part.field? "functionCall").any Json.isObject with
  | true => rfl
  | false =>
    cases (part.field? "functionResponse").isSome with
    | true => rfl
    | false =>
      simp only [Bool.false_eq_true, ↓reduceIte, Bool.not_false, Bool.and_false,
        decide_eq_false_iff_not]
      repeat (split; · exact nofun)
      exact nofun

theorem isCall_iff {part : Json} :
    isCall part = true ↔ ∃ fields, part.field? "functionCall" = some (.object fields) := by
  rw [isCall_eq]
  cases part.field? "functionCall" with
  | none => simp
  | some value => cases value <;> simp [Json.isObject]

end Part

namespace Turn

theorem role_congr {s t : Json} (h : s.field? "role" = t.field? "role") : role s = role t := by
  unfold role
  rw [h]

theorem role_eq_iff {turn : Json} {role : Role} {text : String} (h : role.text? = some text) :
    Turn.role turn = role ↔ turn.field? "role" = some (.string text) := by
  constructor
  · rintro rfl
    unfold Turn.role at h
    split at h
    · cases h
    · cases h
    · next text' hf =>
      unfold Role.ofText at h
      split at h <;> cases h <;> exact hf
    · cases h
  · intro hf
    rw [Turn.role, hf]
    exact Role.ofText_of_text? h

theorem role_of_not_isObject {turn : Json} (h : turn.isObject = false) : role turn = .unset := by
  simp [role, Json.field?_of_not_isObject h]

theorem parts?_of_not_isObject {turn : Json} (h : turn.isObject = false) : parts? turn = none := by
  simp [parts?, Json.field?_of_not_isObject h]

theorem isObject_of_parts? {turn : Json} {ps : List Json} (h : parts? turn = some ps) :
    turn.isObject = true := by
  cases ho : turn.isObject with
  | true => rfl
  | false => rw [parts?_of_not_isObject ho] at h; cases h

theorem field?_of_parts? {turn : Json} {ps : List Json} (h : parts? turn = some ps) :
    turn.field? "parts" = some (.array ps) := Json.bind_items?_eq_some.1 h

@[simp] theorem isObject_withParts (turn : Json) (ps : List Json) :
    (withParts turn ps).isObject = turn.isObject := Json.isObject_putField ..

@[simp] theorem role_withParts (turn : Json) (ps : List Json) :
    role (withParts turn ps) = role turn :=
  role_congr (Json.field?_putField_of_ne (by decide) ..)

theorem parts?_withParts {turn : Json} (h : turn.isObject = true) (ps : List Json) :
    parts? (withParts turn ps) = some ps := by
  rw [parts?, withParts, Json.field?_putField_self h]
  rfl

theorem parts_withParts {turn : Json} (h : turn.isObject = true) (ps : List Json) :
    parts (withParts turn ps) = ps := by
  rw [parts, parts?_withParts h]
  rfl

theorem parts_of_parts? {turn : Json} {ps : List Json} (h : parts? turn = some ps) :
    parts turn = ps := by
  rw [parts, h]
  rfl

theorem isObject_of_parts_ne_nil {turn : Json} (h : parts turn ≠ []) : turn.isObject = true := by
  cases ho : turn.isObject with
  | true => rfl
  | false => exact absurd (by rw [parts, parts?_of_not_isObject ho]; rfl) h

theorem has_eq_false_iff {kind : PartKind} {turn : Json} :
    has kind turn = false ↔ ∀ part ∈ parts turn, Part.kind part ≠ kind := by
  simp [has]

theorem openedCalls_withParts {turn : Json} (h : turn.isObject = true) {p : Json → Bool}
    (hp : ∀ part, Part.kind part = .functionCall → p part = true) :
    openedCalls (withParts turn ((parts turn).filter p)) = openedCalls turn := by
  simp only [openedCalls, role_withParts, count, parts_withParts h, List.filter_filter]
  congr 3
  funext part
  cases hk : decide (Part.kind part = .functionCall) with
  | false => rfl
  | true => rw [hp part (of_decide_eq_true hk)]; rfl

theorem role_of_openedCalls_pos {turn : Json} (h : 0 < openedCalls turn) :
    role turn = .model := by
  rw [openedCalls] at h
  split at h
  · assumption
  · cases h

theorem openedCalls_of_role {turn : Json} (h : role turn = .model) :
    openedCalls turn = count .functionCall turn := by rw [openedCalls, if_pos h]

def labelled (key : String) (ids : List (Option String)) : Json :=
  .array (ids.map fun id => .object [(key, .object (("name", .string "f") ::
    (id.map fun id => ("id", Json.string id)).toList))])

def calling (ids : List (Option String)) : Json :=
  .object [("role", .string "model"), ("parts", labelled "functionCall" ids)]

def replying (ids : List (Option String)) : Json :=
  .object [("role", .string "user"), ("parts", labelled "functionResponse" ids)]

end Turn

end Dialogue
