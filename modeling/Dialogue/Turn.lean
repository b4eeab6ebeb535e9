import Dialogue.Part

namespace Dialogue

inductive Role where
  | user
  | model
  | function
  | unset
  | invalid
  deriving DecidableEq, Repr

namespace Role

def ofText : String → Role
  | "" => .unset
  | "user" => .user
  | "model" => .model
  | "function" => .function
  | _ => .invalid

def isLegal : Role → Bool
  | .user | .model => true
  | _ => false

def text? : Role → Option String
  | .user => some "user"
  | .model => some "model"
  | .function => some "function"
  | _ => none

@[simp] theorem ofText_of_text? {role : Role} {text : String} (h : role.text? = some text) :
    ofText text = role := by
  cases role <;> simp [text?] at h <;> subst h <;> rfl

end Role

namespace Turn

def role (turn : Json) : Role :=
  match turn.field? "role" with
  | none | some .null => .unset
  | some (.string text) => Role.ofText text
  | some _ => .invalid

def parts? (turn : Json) : Option (List Json) := (turn.field? "parts").bind Json.items?

def parts (turn : Json) : List Json := (parts? turn).getD []

def withParts (turn : Json) (parts : List Json) : Json := turn.putField "parts" (.array parts)

def count (kind : PartKind) (turn : Json) : Nat := ((parts turn).filter (Part.kind · = kind)).length

def has (kind : PartKind) (turn : Json) : Bool := (parts turn).any (Part.kind · = kind)

theorem has_eq_true_iff {kind : PartKind} {turn : Json} :
    has kind turn = true ↔ 0 < count kind turn := by
  simp [has, count, List.length_pos_iff_exists_mem]

def openedCalls (turn : Json) : Nat := if role turn = .model then count .functionCall turn else 0

end Turn

end Dialogue
