import Dialogue.RequestScope

namespace Dialogue.Body

def withoutModel : Json → Json
  | .object fields => .object (Members.erase "model" fields)
  | other => other

def wrap (context : Context) (body : Json) : Json :=
  match context.target.envelopeKey? with
  | none => body
  | some key =>
    .object [("project", .string context.project), (key, withoutModel body),
      ("model", .string context.model)]

end Dialogue.Body
