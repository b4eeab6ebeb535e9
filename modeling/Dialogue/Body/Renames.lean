import Dialogue.RequestScope
import Dialogue.Document

namespace Dialogue.Body

structure Renaming where
  document : Json
  renamed : Nat := 0
  failure : Option PathError := none

namespace Renaming

def field (r : Renaming) (parent : Path) (old new : String) : Renaming :=
  match r.failure with
  | some _ => r
  | none =>
    match r.document.rename (parent ++ [old]) (parent ++ [new]) with
    | (document, .ok found) => ⟨document, r.renamed + found.toNat, none⟩
    | (document, .error e) => ⟨document, r.renamed, some e⟩

def each (r : Renaming) (path : Path) (step : Renaming → Path → Renaming) : Renaming :=
  (List.range (r.document.lengthAt path)).foldl (fun r i => step r (path ++ [toString i])) r

def tool (r : Renaming) (path : Path) : Renaming :=
  let r := r.field path "functionDeclarations" "function_declarations"
  r.each (path ++ ["function_declarations"]) fun r declaration =>
    r.field declaration "parameters" "parametersJsonSchema"

end Renaming

def renameFields (context : Context) (document : Json) : Renaming :=
  let r : Renaming := { document }
  let r := r.each (context.path ["tools"]) Renaming.tool
  let r := r.field (context.path ["generationConfig"]) "responseSchema" "responseJsonSchema"
  if context.target.envelopeKey?.isSome then
    r.field (context.path []) "system_instruction" "systemInstruction"
  else r

end Dialogue.Body
