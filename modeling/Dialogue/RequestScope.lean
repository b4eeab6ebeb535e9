import Dialogue.Safety

namespace Dialogue

/-- The identifiers of the requests that are being handled, innermost first.  An empty
one is as good as none. -/
abbrev RequestScope := List String

namespace RequestScope

def current (scope : RequestScope) : String := scope.headD ""

def currentOr (fresh : String) (scope : RequestScope) : String :=
  if scope.current.isEmpty then fresh else scope.current

def enter (requestId : String) (scope : RequestScope) : RequestScope := requestId :: scope

end RequestScope

inductive ModelFamily where
  | claude
  | other
  deriving DecidableEq, Repr

namespace ModelFamily

def mentions (word : List Char) : List Char → Bool
  | [] => word.isEmpty
  | c :: rest => word.isPrefixOf (c :: rest) || mentions word rest

def ofModel (model : String) : ModelFamily :=
  if mentions "claude".toList (Text.lowerAscii model).toList then .claude else .other

def name : ModelFamily → String
  | .claude => "Claude"
  | .other => "Other"

end ModelFamily

structure Context where
  requestId : String
  model : String
  target : Target
  stream : Bool := false
  project : String := ""
  threshold : Threshold := .off
  deriving DecidableEq, Repr

namespace Context

def family (context : Context) : ModelFamily := ModelFamily.ofModel context.model

def path (context : Context) (suffix : Path) : Path := context.target.bodyPath ++ suffix

def conversationPath (context : Context) : Path := context.path ["contents"]

end Context

end Dialogue
