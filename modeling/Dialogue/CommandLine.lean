import Dialogue.Dotenv
import Dialogue.Normalizer
import Dialogue.Settings

namespace Dialogue.CommandLine

structure Invocation where
  model : String
  input : Option String := none
  stream : Bool := false
  config : Option String := none
  deriving DecidableEq, Repr

inductive Refusal where
  | help
  | version
  | misuse
  deriving DecidableEq, Repr

structure Arguments where
  positional : List String := []
  stream : Bool := false
  config : Option String := none

def isOption (argument : String) : Bool := "-".isPrefixOf argument && argument ≠ "-"

def Arguments.addPositional (a : Arguments) (argument : String) : Except Refusal Arguments :=
  match a.positional with
  | [] => .ok { a with positional := [argument] }
  | [model] =>
    if argument.isEmpty then .error .misuse else .ok { a with positional := [model, argument] }
  | _ => .error .misuse

def Arguments.setConfig (a : Arguments) (path : String) : Except Refusal Arguments :=
  if a.config.isSome || path.isEmpty || isOption path then .error .misuse
  else .ok { a with config := some path }

def Arguments.setStream (a : Arguments) : Except Refusal Arguments :=
  if a.stream then .error .misuse else .ok { a with stream := true }

def attachedConfig? (argument : String) : Option String :=
  let start := "--config=".toList
  if start.isPrefixOf argument.toList then some (String.ofList (argument.toList.drop start.length))
  else none

def Arguments.option (a : Arguments) (argument : String) : Except Refusal Arguments :=
  match argument, argument.toList with
  | "--stream", _ => a.setStream
  | "--help", _ | _, '-' :: 'h' :: _ => .error .help
  | "--version", _ | _, '-' :: 'V' :: _ => .error .version
  | _, _ => .error .misuse

def read (a : Arguments) : List String → Except Refusal Arguments
  | [] => .ok a
  | argument :: rest =>
    if !isOption argument then do read (← a.addPositional argument) rest
    else if argument = "--" then rest.foldlM Arguments.addPositional a
    else if argument = "--config" then
      match rest with
      | [] => .error .misuse
      | path :: rest => do read (← a.setConfig path) rest
    else
      match attachedConfig? argument with
      | some path =>
        if a.config.isSome || path.isEmpty then .error .misuse
        else read { a with config := some path } rest
      | none => do read (← a.option argument) rest

def parse (environment : Environment) (arguments : List String) : Except Refusal Invocation := do
  let a ← read {} arguments
  let config := a.config.or (environment "CONFIG_PATH")
  if config = some "" then .error .misuse
  else
    match a.positional with
    | [] => .error .misuse
    | model :: rest => return { model, input := rest.head?, stream := a.stream, config }

structure Report where
  code : Nat
  output : String := ""
  error : String := ""
  deriving DecidableEq, Repr

def usage : String := "Usage: llm-normalizer [OPTIONS] <MODEL> [INPUT]\n"

def helpText : String :=
  "Normalize a Gemini request body for the configured upstream\n\n" ++ usage ++
    "\nArguments:\n" ++
    "  <MODEL>  Target model id (e.g. gemini-2.5-pro, claude-sonnet-4-5)\n" ++
    "  [INPUT]  Request body file (\"-\" or omitted reads stdin)\n" ++
    "\nOptions:\n" ++
    "      --stream           Normalize for a streaming request\n" ++
    "      --config <CONFIG>  YAML config file (environment variables are used when omitted)" ++
    " [env: CONFIG_PATH=]\n" ++
    "  -h, --help             Print help\n" ++
    "  -V, --version          Print version\n"

def Refusal.report : Refusal → Report
  | .help => { code := 0, output := helpText }
  | .version => { code := 0, output := "llm-normalizer 0.1.0\n" }
  | .misuse => { code := 2, error := usage }

def failed (message : String) : Report := { code := 1, error := s!"Error: {message}\n" }

abbrev Files := String → Option (List UInt8)

def Files.text? (files : Files) (path : String) : Option String := (files path).bind Json.decode?

def Files.extend (files : Files) (environment : Environment) : Environment :=
  match files.text? ".env" with
  | some text => Dotenv.apply environment text
  | none => environment

def settings (environment : Environment) (files : Files) (config : Option String) :
    Except SettingsError Settings :=
  match config with
  | some path => Settings.load environment path (files.text? path)
  | none => Settings.ofEnvironment environment

def Invocation.bodyFile? (i : Invocation) : Option String := i.input.filter (· ≠ "-")

def body (files : Files) (input : List UInt8) (i : Invocation) : Except Report (List UInt8) :=
  match i.bodyFile? with
  | none => .ok input
  | some path =>
    match files path with
    | some bytes => .ok bytes
    | none => .error (failed s!"Failed to read request body: {path}")

structure Job where
  normalizer : Normalizer
  request : Request

def prepare (environment : Environment) (files : Files) (input : List UInt8)
    (arguments : List String) : Except Report Job := do
  let environment := files.extend environment
  let i ← (parse environment arguments).mapError Refusal.report
  let s ← (settings environment files i.config).mapError (failed ·.message)
  let body ← body files input i
  return { normalizer := { target := s.target, project := s.project, threshold := s.threshold }
           request := { model := i.model, body, stream := i.stream } }

def Job.answer (job : Job) (requestId : String) (ids : IdSource) : Answer :=
  job.normalizer.answer requestId ids job.request

def Job.report (job : Job) (requestId : String) (ids : IdSource) : Report :=
  match (job.answer requestId ids).result with
  | .ok document => { code := 0, output := document.compact ++ "\n" }
  | .error e => failed e.message

end Dialogue.CommandLine
