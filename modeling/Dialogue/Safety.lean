import Dialogue.Json.Value
import Dialogue.Target

namespace Dialogue

inductive Threshold where
  | off
  | lowAndAbove
  | mediumAndAbove
  | onlyHigh
  | never
  deriving DecidableEq, Repr

namespace Threshold

def name : Threshold → String
  | .off => "OFF"
  | .lowAndAbove => "BLOCK_LOW_AND_ABOVE"
  | .mediumAndAbove => "BLOCK_MEDIUM_AND_ABOVE"
  | .onlyHigh => "BLOCK_ONLY_HIGH"
  | .never => "BLOCK_NONE"

def ofName? : String → Option Threshold
  | "OFF" => some .off
  | "BLOCK_LOW_AND_ABOVE" => some .lowAndAbove
  | "BLOCK_MEDIUM_AND_ABOVE" => some .mediumAndAbove
  | "BLOCK_ONLY_HIGH" => some .onlyHigh
  | "BLOCK_NONE" => some .never
  | _ => none

def ofShortName? : String → Option Threshold
  | "LOW" => some .lowAndAbove
  | "MEDIUM" => some .mediumAndAbove
  | "HIGH" => some .onlyHigh
  | "NONE" => some .never
  | _ => none

def parse (text : String) : Except UnknownName Threshold :=
  let name := Text.upperAscii (Text.trim text)
  match (ofName? name).or (ofShortName? name) with
  | some threshold => .ok threshold
  | none => .error (.threshold text)

@[simp] theorem ofName?_name (threshold : Threshold) :
    ofName? threshold.name = some threshold := by
  cases threshold <;> rfl

def harmCategories : List String :=
  ["HARM_CATEGORY_HARASSMENT", "HARM_CATEGORY_HATE_SPEECH", "HARM_CATEGORY_SEXUALLY_EXPLICIT",
    "HARM_CATEGORY_DANGEROUS_CONTENT", "HARM_CATEGORY_CIVIC_INTEGRITY"]

def settings (threshold : Threshold) : Json :=
  .array (harmCategories.map fun category =>
    .object [("category", .string category), ("threshold", .string threshold.name)])

end Threshold

end Dialogue
