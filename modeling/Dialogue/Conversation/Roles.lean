import Dialogue.Turn

namespace Dialogue.Conversation

/-- The role that follows another: turns alternate, and the user begins. -/
def inferRole (previous : Option Role) : Role :=
  if previous = some .user then .model else .user

def withRole (turn : Json) (role : Role) : Json :=
  match role.text? with
  | some text => turn.putField "role" (.string text)
  | none => turn

def lacksRole (turn : Json) : Bool := turn.isObject && !(Turn.role turn).isLegal

def fillRoles (previous : Option Role) : List Json → List Json
  | [] => []
  | turn :: rest =>
    if (Turn.role turn).isLegal then turn :: fillRoles (some (Turn.role turn)) rest
    else if turn.isObject then
      withRole turn (inferRole previous) :: fillRoles (some (inferRole previous)) rest
    else turn :: fillRoles previous rest

def missingRoles (turns : List Json) : Nat := turns.countP lacksRole

@[simp] theorem length_fillRoles (previous : Option Role) (turns : List Json) :
    (fillRoles previous turns).length = turns.length := by
  induction turns generalizing previous with
  | nil => rfl
  | cons turn rest ih =>
    simp only [fillRoles]
    split
    · simp [ih]
    · split <;> simp [ih]

end Dialogue.Conversation
