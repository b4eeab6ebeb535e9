import Dialogue.Proofs.Document.Place

namespace Dialogue

def Path.IsField (segment : String) : Prop :=
  index? segment = none ∧ segment ≠ appendSegment

namespace Json

def takesFields : Json → Bool
  | .null | .object _ => true
  | _ => false

variable {node value : Json} {segment : String} {path : Path}

theorem hasPlace_of_isField (hs : Path.IsField segment) (node : Json) (rest : Path) :
    hasPlace node segment rest = node.takesFields := by
  cases node with
  | array xs => simp [hasPlace, hs.1, hs.2, takesFields]
  | _ => rfl

inductive StopsAt : Json → Path → String → Prop where
  | here {node : Json} {segment : String} {rest : Path} (h : node.takesFields = false) :
      StopsAt node (segment :: rest) segment
  | under {node child : Json} {first segment : String} {rest : Path}
      (hc : child? node first = some child) (h : StopsAt child rest segment) :
      StopsAt node (first :: rest) segment

theorem blocked_iff_stopsAt (hp : ∀ segment ∈ path, Path.IsField segment) :
    Blocked node path segment ↔ StopsAt node path segment := by
  constructor
  · intro h
    induction h with
    | here h =>
      rw [hasPlace_of_isField (hp _ (.head _))] at h
      exact .here h
    | under hc _ ih => exact .under hc (ih fun s hs => hp s (.tail _ hs))
  · intro h
    induction h with
    | here h => exact .here ((hasPlace_of_isField (hp _ (.head _)) ..).trans h)
    | under hc _ ih => exact .under hc (ih fun s hs => hp s (.tail _ hs))

theorem write_blocked_iff (hp : ∀ segment ∈ path, Path.IsField segment) :
    (write value node path).2 = some segment ↔ StopsAt node path segment :=
  (write_stops_iff value node path segment).trans (blocked_iff_stopsAt hp)

end Json

end Dialogue
