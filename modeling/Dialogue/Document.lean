import Dialogue.Json.Value
import Dialogue.Path

/-!
Reading and changing a document at a path.

Reading never fails: a path that leads nowhere has no value.  Writing creates the objects that are
missing on the way and treats `null` as an object without members; it gives the document it leaves
behind together with the reason it stopped, so that what a failed write does to a document can be
stated.
-/

namespace Dialogue.Json

open Dialogue.Path (index? appendSegment)

def child? (node : Json) (segment : String) : Option Json :=
  match node with
  | .object ms => Members.get? segment ms
  | .array xs => (index? segment).bind (xs[·]?)
  | _ => none

def putChild (node : Json) (segment : String) (value : Json) : Json :=
  match node with
  | .object ms => .object (Members.put segment value ms)
  | .array xs =>
    match index? segment with
    | some i => .array (xs.set i value)
    | none => .array xs
  | other => other

def descend? : Json → Path → Option Json
  | node, [] => some node
  | node, segment :: rest => (child? node segment).bind (descend? · rest)

def get? (doc : Json) (path : Path) : Option Json :=
  if path.valid then descend? doc path else none

def has (doc : Json) (path : Path) : Bool := (get? doc path).isSome

def lengthAt (doc : Json) (path : Path) : Nat :=
  match get? doc path with
  | some (.array xs) => xs.length
  | _ => 0

def exchange? (value : Json) : Json → Path → Option Json
  | _, [] => some value
  | node, segment :: rest => do
    let child ← child? node segment
    return putChild node segment (← exchange? value child rest)

def replace? (doc : Json) (path : Path) (value : Json) : Option Json :=
  if path.valid then exchange? value doc path else none

structure Slot where
  content : Json
  fill : Json → Json

def slot? (node : Json) (segment : String) : Option Slot :=
  match node with
  | .null => some ⟨.object [], fun v => .object [(segment, v)]⟩
  | .object ms =>
    some ⟨(Members.get? segment ms).getD (.object []), fun v => .object (Members.put segment v ms)⟩
  | .array xs =>
    if segment = appendSegment then some ⟨.object [], fun v => .array (xs ++ [v])⟩
    else do
      let i ← index? segment
      let x ← xs[i]?
      return ⟨x, fun v => .array (xs.set i v)⟩
  | _ => none

def assign? (node : Json) (segment : String) (value : Json) : Option Json :=
  match node with
  | .null => some (.object [(segment, value)])
  | .object ms => some (.object (Members.put segment value ms))
  | .array xs =>
    if segment = appendSegment then some (.array (xs ++ [value]))
    else do
      let i ← index? segment
      if i < xs.length then return .array (xs.set i value)
      -- The index behind the last item appends, as the append segment does.
      else if i = xs.length then return .array (xs ++ [value])
      else none
  | _ => none

/-- The node after the write, and the segment that had no place, if one had none. -/
def write (value : Json) : Json → Path → Json × Option String
  | _, [] => (value, none)
  | node, [last] =>
    match assign? node last value with
    | some node => (node, none)
    | none => (node, some last)
  | node, segment :: next :: rest =>
    match slot? node segment with
    | some slot =>
      let (child, blocked) := write value slot.content (next :: rest)
      (slot.fill child, blocked)
    | none => (node, some segment)

def set (doc : Json) (path : Path) (value : Json) : Json × Except PathError Unit :=
  if path.valid then
    match write value doc path with
    | (doc, none) => (doc, .ok ())
    | (doc, some segment) => (doc, .error (.notAContainer path.text segment))
  else (doc, .error (.invalid path.text))

def takeChild (node : Json) (segment : String) : Option Json × Json :=
  match node with
  | .object ms => (Members.get? segment ms, .object (Members.erase segment ms))
  | .array xs =>
    match index? segment with
    | some i => (xs[i]?, .array (xs.eraseIdx i))
    | none => (none, .array xs)
  | other => (none, other)

def remove : Json → Path → Option Json × Json
  | node, [] => (none, node)
  | node, [last] => takeChild node last
  | node, segment :: next :: rest =>
    match child? node segment with
    | some child =>
      let (removed, child) := remove child (next :: rest)
      (removed, putChild node segment child)
    | none => (none, node)

def delete (doc : Json) (path : Path) : Option Json × Json :=
  if path.valid then remove doc path else (none, doc)

/-- Moves the node at one path to another, and says whether there was one.  The node is gone from
its old place even when the new one cannot be written to. -/
def rename (doc : Json) (old new : Path) : Json × Except PathError Bool :=
  match delete doc old with
  | (none, doc) => (doc, .ok false)
  | (some value, doc) =>
    match set doc new value with
    | (doc, .ok ()) => (doc, .ok true)
    | (doc, .error e) => (doc, .error e)

end Dialogue.Json
