import Dialogue.CommandLine

namespace Dialogue.Program

open CommandLine

def readFile? (path : String) : IO (Option (List UInt8)) := do
  try return some (← IO.FS.readBinFile path).data.toList
  catch _ => return none

def readDotenv? : Nat → String → IO (Option (List UInt8))
  | 0, _ => return none
  | levels + 1, directory => do
    match ← readFile? (directory ++ ".env") with
    | some bytes => return some bytes
    | none => readDotenv? levels (directory ++ "../")

def readVariables (names : List String) : IO (List (String × String)) :=
  names.filterMapM fun name => do
    if name.isEmpty then return none
    else return (← IO.getEnv name).map (name, ·)

def textOf (bytes : Option (List UInt8)) : List Char :=
  ((bytes.bind Json.decode?).getD "").toList

def readInput : IO (List UInt8) := do
  return (← (← IO.getStdin).readBinToEnd).data.toList

def readFiles (names : List String) : IO (List (String × List UInt8)) :=
  names.filterMapM fun name => return (← readFile? name).map (name, ·)

def run (arguments : List String) : IO Report := do
  let dotenv ← readDotenv? 64 ""
  let known := ["CONFIG_PATH", Settings.targetVariable, Settings.projectVariable,
    Settings.thresholdVariable]
  let values ← readVariables (known ++ Dotenv.names (textOf dotenv))
  let dotenvFile := dotenv.toList.map (".env", ·)
  let environment :=
    Files.extend (fun name => dotenvFile.lookup name) (Environment.ofList values)
  let (config, input) := match parse environment arguments with
    | .ok i => (i.config.toList, i.bodyFile?.toList)
    | .error _ => ([], [])
  let files ← readFiles (config ++ input)
  let asked := config.flatMap fun path => Template.names (textOf (files.lookup path))
  let values := values ++ (← readVariables asked)
  let files := dotenvFile ++ files
  match prepare (Environment.ofList values) (fun name => files.lookup name) [] arguments with
  | .error report => return report
  | .ok job =>
    let body ← if input.isEmpty then readInput else pure job.request.body
    let job := { job with request := { job.request with body } }
    let drawn := (job.answer "" .counting).ids.drawn
    let bytes ← IO.getRandomBytes (drawn * IdSource.bytesPerId).toUSize
    return job.report "" (.random bytes.data.toList)

end Dialogue.Program

def main (arguments : List String) : IO UInt32 := do
  let report ← Dialogue.Program.run arguments
  IO.print report.output
  IO.eprint report.error
  return report.code.toUInt32
