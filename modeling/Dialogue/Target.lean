import Dialogue.Path
import Dialogue.Text.Blank

namespace Dialogue

inductive UnknownName where
  | target (name : String)
  | threshold (name : String)
  deriving DecidableEq, Repr

def UnknownName.message : UnknownName → String
  | .target name => s!"unknown upstream target: `{name}`"
  | .threshold name => s!"unknown safety threshold: `{name}`"

inductive Target where
  | gemini
  | antigravity
  deriving DecidableEq, Repr

namespace Target

def name : Target → String
  | .gemini => "gemini"
  | .antigravity => "antigravity"

def envelopeKey? : Target → Option String
  | .gemini => none
  | .antigravity => some "request"

def bodyPath (target : Target) : Path := target.envelopeKey?.toList

def needsGrouping : Target → Bool
  | .gemini => false
  | .antigravity => true

def ofName? : String → Option Target
  | "gemini" => some .gemini
  | "antigravity" => some .antigravity
  | _ => none

def parse (text : String) : Except UnknownName Target :=
  match ofName? (Text.lowerAscii (Text.trim text)) with
  | some target => .ok target
  | none => .error (.target text)

@[simp] theorem ofName?_name (target : Target) : ofName? target.name = some target := by
  cases target <;> rfl

end Target

end Dialogue
