import Dialogue.Json.Failure
import Dialogue.Json.Written
import Dialogue.Path

namespace Dialogue

inductive DocumentError where
  | missingConversation (path : String)
  | malformedConversation (path : String)
  | blocked (error : PathError)
  deriving DecidableEq, Repr

inductive RequestError where
  | document (error : DocumentError)
  | notJson (failure : Json.Failure)
  | configuration (message : String)
  deriving DecidableEq, Repr

inductive ErrorCategory where
  | missingConversation
  | malformedConversation
  | invalidPath
  | invalidJson
  | configuration
  deriving DecidableEq, Repr

namespace ErrorCategory

def name : ErrorCategory → String
  | .missingConversation => "missing_conversation"
  | .malformedConversation => "malformed_conversation"
  | .invalidPath => "invalid_path"
  | .invalidJson => "invalid_json"
  | .configuration => "config_error"

def isClientError : ErrorCategory → Bool
  | .configuration => false
  | _ => true

def status (category : ErrorCategory) : Nat := if category.isClientError then 400 else 500

def typeName (category : ErrorCategory) : String :=
  if category.isClientError then "invalid_request_error" else "api_error"

end ErrorCategory

namespace PathError

def category : PathError → ErrorCategory
  | .invalid _ | .notAContainer _ _ => .invalidPath

end PathError

namespace DocumentError

def message : DocumentError → String
  | .missingConversation path => s!"no conversation to group: `{path}` not found"
  | .malformedConversation path => s!"conversation at `{path}` is not an array"
  | .blocked error => error.message

def category : DocumentError → ErrorCategory
  | .missingConversation _ => .missingConversation
  | .malformedConversation _ => .malformedConversation
  | .blocked error => error.category

end DocumentError

namespace RequestError

def message : RequestError → String
  | .document error => s!"Normalization error: {error.message}"
  | .notJson failure => s!"Serialization error: {failure.message}"
  | .configuration message => s!"Configuration error: {message}"

def category : RequestError → ErrorCategory
  | .document error => error.category
  | .notJson _ => .invalidJson
  | .configuration _ => .configuration

def response (error : RequestError) : Json :=
  .object [("error", .object [
    ("message", .string error.message),
    ("type", .string error.category.typeName),
    ("code", .string error.category.name)])]

end RequestError

end Dialogue
