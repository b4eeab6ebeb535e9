import Dialogue.Failure
import Dialogue.Safety
import Dialogue.Template
import Dialogue.Yaml.Node

namespace Dialogue

structure Settings where
  target : Target := .antigravity
  project : String := ""
  threshold : Threshold := .off
  deriving DecidableEq, Repr

inductive SettingsError where
  | unreadableFile (path : String)
  | malformedFile (path : String)
  | invalidVariable (name value : String) (cause : UnknownName)
  deriving DecidableEq, Repr

namespace SettingsError

def message : SettingsError → String
  | .unreadableFile path => s!"Failed to read config file: {path}"
  | .malformedFile path => s!"Failed to parse config file: {path}"
  | .invalidVariable name value _ => s!"Invalid {name}: {value}"

def cause? : SettingsError → Option UnknownName
  | .invalidVariable _ _ cause => some cause
  | _ => none

end SettingsError

namespace Settings

def scalar? (anchors : Yaml.Anchors) : Yaml.Node → Option Yaml.Scalar
  | .scalar scalar => some scalar
  | .alias anchor => anchors.scalar? anchor
  | _ => none

def isNull (scalar : Yaml.Scalar) : Bool :=
  scalar.plain && ["", "~", "null", "Null", "NULL"].contains scalar.text

/-- The name that a scalar chooses.  A tag of the file's own chooses by itself, and then no value
may stand beside it. -/
def choice? (scalar : Yaml.Scalar) : Option String :=
  match scalar.tag.map String.toList with
  | some ('!' :: name) => if isNull scalar then some (String.ofList name) else none
  | _ => some scalar.text

structure Found where
  target : Option Target := none
  project : Option String := none
  threshold : Option Threshold := none

def Found.entry (found : Found) (anchors : Yaml.Anchors) (key value : Yaml.Node) :
    Option Found := do
  match (← scalar? anchors key).text with
  | "target" =>
    if found.target.isSome then none
    else
      let name ← choice? (← scalar? anchors value)
      return { found with target := ← Target.ofName? name }
  | "project" =>
    if found.project.isSome then none
    else return { found with project := (← scalar? anchors value).text }
  | "safety_threshold" =>
    if found.threshold.isSome then none
    else
      let name ← choice? (← scalar? anchors value)
      return { found with threshold := ← Threshold.ofName? name }
  | _ => return found

def Found.entries (anchors : Yaml.Anchors) : Found → List (Yaml.Node × Yaml.Node) → Option Found
  | found, [] => some found
  | found, (key, value) :: rest => do entries anchors (← found.entry anchors key value) rest

def ofFound (found : Found) : Settings :=
  let default : Settings := {}
  { target := found.target.getD default.target
    project := found.project.getD default.project
    threshold := found.threshold.getD default.threshold }

def ofDocument (document : Yaml.Document) : Option Settings :=
  match document.root with
  | .mapping entries => (Found.entries document.anchors {} entries).map ofFound
  | .scalar scalar => if scalar.plain && scalar.text.isEmpty then some {} else none
  | _ => none

def ofYaml (text : String) : Option Settings :=
  match Yaml.parse text with
  | none => none
  | some none => some {}
  | some (some document) => ofDocument document

/-- Whatever decides which texts give settings. -/
abbrev Parser := String → Option Settings

def ofText (text : String) (parse : Parser := ofYaml) : Option Settings :=
  if Text.isAllBlank text then some {} else parse text

def targetVariable : String := "NORMALIZER_TARGET"

def projectVariable : String := "NORMALIZER_PROJECT"

def thresholdVariable : String := "NORMALIZER_SAFETY_THRESHOLD"

def override (environment : Environment) (name : String) (fallback : α)
    (parse : String → Except UnknownName α) : Except SettingsError α :=
  match environment name with
  | none => .ok fallback
  | some text => (parse text).mapError (.invalidVariable name text)

def overrideAll (environment : Environment) (settings : Settings) :
    Except SettingsError Settings := do
  -- The first field to fail is the one that is reported.
  let target ← override environment targetVariable settings.target Target.parse
  let project ← override environment projectVariable settings.project .ok
  let threshold ← override environment thresholdVariable settings.threshold Threshold.parse
  return { target, project, threshold }

def ofEnvironment (environment : Environment) : Except SettingsError Settings :=
  overrideAll environment {}

def load (environment : Environment) (path : String) (file : Option String)
    (parse : Parser := ofYaml) : Except SettingsError Settings :=
  match file with
  | none => .error (.unreadableFile path)
  | some text =>
    match ofText (Template.expand environment text) parse with
    | none => .error (.malformedFile path)
    | some settings => overrideAll environment settings

def toJson (settings : Settings) : Json :=
  .object [("target", .string settings.target.name), ("project", .string settings.project),
    ("safety_threshold", .string settings.threshold.name)]

end Settings

end Dialogue
