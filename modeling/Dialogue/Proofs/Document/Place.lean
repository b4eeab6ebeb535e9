import Dialogue.Proofs.Document.Rename

/-!
The places that a write looks for on its way.  One equation says what a write does with a segment,
whatever the node is; from it follows where a write stops, and that it stops before it has changed
anything.
-/

namespace Dialogue.Json

open Dialogue.Path (index? appendSegment)

variable {node child value : Json} {segment : String} {rest path : Path}

/-- Whether the node has a place at the segment.  The index behind the last item of an array is one
only where the path ends. -/
def hasPlace (node : Json) (segment : String) (rest : Path) : Bool :=
  match node with
  | .null | .object _ => true
  | .array xs =>
    segment = appendSegment ||
      match index? segment with
      | some i => i < xs.length || (i = xs.length && rest.isEmpty)
      | none => false
  | _ => false

def place (node : Json) (segment : String) (value : Json) : Json :=
  (assign? node segment value).getD node

def onward (node : Json) (segment : String) : Json := (child? node segment).getD (.object [])

theorem assign?_eq (node : Json) (segment : String) (value : Json) :
    assign? node segment value =
      if hasPlace node segment [] then some (place node segment value) else none := by
  cases node with
  | array xs =>
    rw [place, assign?, hasPlace]
    by_cases ha : segment = appendSegment
    · simp [ha]
    · cases hi : index? segment with
      | none => simp [ha]
      | some i =>
        rcases Nat.lt_trichotomy i xs.length with h | h | h
        · simp [ha, h]
        · simp [ha, h]
        · simp [ha, Nat.not_lt_of_gt h, Nat.ne_of_gt h]
  | _ => rfl

theorem ne_appendSegment_of_index? {i : Nat} (h : index? segment = some i) :
    segment ≠ appendSegment := by
  rintro rfl
  cases h

theorem lt_length_of_child? {xs : List Json} (hc : child? (.array xs) segment = some child) :
    ∃ i, index? segment = some i ∧ i < xs.length ∧ segment ≠ appendSegment := by
  cases hi : index? segment with
  | none => rw [child?, hi] at hc; cases hc
  | some i =>
    rw [child?, hi, Option.bind_some] at hc
    exact ⟨i, rfl, (List.getElem?_eq_some_iff.1 hc).1, ne_appendSegment_of_index? hi⟩

theorem hasPlace_of_child? (hc : child? node segment = some child) (rest : Path) :
    hasPlace node segment rest = true := by
  cases node with
  | object ms => rfl
  | array xs =>
    obtain ⟨i, hi, hlt, -⟩ := lt_length_of_child? hc
    simp [hasPlace, hi, hlt]
  | _ => cases hc

theorem place_of_child? (hc : child? node segment = some child) :
    place node segment = putChild node segment := by
  funext value
  cases node with
  | object ms => rfl
  | array xs =>
    obtain ⟨i, hi, hlt, ha⟩ := lt_length_of_child? hc
    simp [place, assign?, putChild, hi, hlt, ha]
  | _ => cases hc

theorem onward_of_child? (hc : child? node segment = some child) :
    onward node segment = child := by rw [onward, hc, Option.getD_some]

theorem slot?_eq (node : Json) (segment next : String) (tail : Path) :
    slot? node segment =
      if hasPlace node segment (next :: tail) then some ⟨onward node segment, place node segment⟩
      else none := by
  cases hc : child? node segment with
  | some child =>
    rw [slot?_of_child? hc, if_pos (hasPlace_of_child? hc _), onward_of_child? hc,
      place_of_child? hc]
  | none =>
    cases node with
    | object ms =>
      have hg : Members.get? segment ms = none := hc
      rw [slot?, hg, onward, hc]
      rfl
    | array xs =>
      rw [onward, hc, slot?, hasPlace]
      by_cases ha : segment = appendSegment
      · rw [if_pos ha]
        simp only [ha, decide_true, Bool.true_or, if_true, Option.getD_none]
        rfl
      · cases hi : index? segment with
        | none => simp [ha]
        | some i =>
          rw [child?, hi, Option.bind_some] at hc
          have hlt : ¬ i < xs.length := Nat.not_lt.2 (List.getElem?_eq_none_iff.1 hc)
          simp [ha, hlt]
    | _ => rfl

theorem write_cons (value node : Json) (segment : String) (rest : Path) :
    write value node (segment :: rest) =
      if hasPlace node segment rest then
        (place node segment (write value (onward node segment) rest).1,
          (write value (onward node segment) rest).2)
      else (node, some segment) := by
  cases rest with
  | nil =>
    rw [write, write, assign?_eq]
    cases hasPlace node segment [] <;> rfl
  | cons next tail =>
    rw [write, slot?_eq node segment next tail]
    cases hasPlace node segment (next :: tail) <;> rfl

theorem write_empty (value : Json) (path : Path) : (write value (.object []) path).2 = none := by
  induction path with
  | nil => rfl
  | cons segment rest ih =>
    rw [write_cons]
    exact ih

/-- A node on the way of a path that has no place at the segment. -/
inductive Blocked : Json → Path → String → Prop where
  | here {node : Json} {segment : String} {rest : Path}
      (h : hasPlace node segment rest = false) : Blocked node (segment :: rest) segment
  | under {node child : Json} {first segment : String} {rest : Path}
      (hc : child? node first = some child) (h : Blocked child rest segment) :
      Blocked node (first :: rest) segment

theorem Blocked.write_eq (h : Blocked node path segment) (value : Json) :
    write value node path = (node, some segment) := by
  induction h with
  | here h => rw [write_cons, h, if_neg Bool.false_ne_true]
  | under hc _ ih =>
    rw [write_cons, if_pos (hasPlace_of_child? hc _), onward_of_child? hc, ih,
      place_of_child? hc, putChild_child? hc]

theorem blocked_of_write (h : (write value node path).2 = some segment) :
    Blocked node path segment := by
  induction path generalizing node with
  | nil => cases h
  | cons first rest ih =>
    rw [write_cons] at h
    split at h
    · cases hc : child? node first with
      | none =>
        -- Nothing stops a write below what it has created itself.
        rw [onward, hc, Option.getD_none, write_empty] at h
        cases h
      | some child =>
        rw [onward_of_child? hc] at h
        exact .under hc (ih h)
    · next hp =>
      cases h
      exact .here (eq_false_of_ne_true hp)

theorem write_stops_iff (value node : Json) (path : Path) (segment : String) :
    (write value node path).2 = some segment ↔ Blocked node path segment :=
  ⟨blocked_of_write, fun h => by rw [h.write_eq]⟩

theorem write_of_blocked (h : (write value node path).2 = some segment) :
    (write value node path).1 = node := by rw [(blocked_of_write h).write_eq]

/-- Why a document takes no value at a path. -/
inductive Refuses (doc : Json) (path : Path) : PathError → Prop where
  | invalid (h : path.valid = false) : Refuses doc path (.invalid path.text)
  | noPlace {segment : String} (hv : path.valid = true) (h : Blocked doc path segment) :
      Refuses doc path (.notAContainer path.text segment)

theorem set_of_valid (doc value : Json) (hv : path.valid = true) :
    doc.set path value =
      ((write value doc path).1, (write value doc path).2.elim (.ok ()) fun segment =>
        .error (.notAContainer path.text segment)) := by
  rw [set, if_pos hv]
  cases write value doc path with
  | mk sent stop => cases stop <;> rfl

theorem set_of_not_valid (doc value : Json) (hv : path.valid = false) :
    doc.set path value = (doc, .error (.invalid path.text)) := by
  rw [set, hv]
  rfl

theorem set_ok_iff {doc value : Json} :
    (doc.set path value).2 = .ok () ↔ path.valid = true ∧ (write value doc path).2 = none := by
  cases hv : path.valid with
  | false =>
    rw [set_of_not_valid doc value hv]
    exact ⟨nofun, fun h => nomatch h.1⟩
  | true =>
    rw [set_of_valid doc value hv]
    cases (write value doc path).2 with
    | none => exact ⟨fun _ => ⟨rfl, rfl⟩, fun _ => rfl⟩
    | some segment => exact ⟨nofun, fun h => nomatch h.2⟩

theorem set_error_iff {doc value : Json} {error : PathError} :
    (doc.set path value).2 = .error error ↔ Refuses doc path error := by
  cases hv : path.valid with
  | false =>
    rw [set_of_not_valid doc value hv]
    refine ⟨fun h => ?_, fun h => ?_⟩
    · cases h
      exact .invalid hv
    · cases h with
      | invalid => rfl
      | noPlace hv' =>
        rw [hv] at hv'
        cases hv'
  | true =>
    have hw := write_stops_iff value doc path
    rw [set_of_valid doc value hv]
    refine ⟨fun h => ?_, fun h => ?_⟩
    · cases hs : (write value doc path).2 with
      | none =>
        rw [hs] at h
        cases h
      | some segment =>
        rw [hs] at h
        cases h
        exact .noPlace hv ((hw segment).1 hs)
    · cases h with
      | invalid hv' =>
        rw [hv] at hv'
        cases hv'
      | noPlace _ h => rw [(hw _).2 h]; rfl

theorem set_of_error {doc value : Json} {error : PathError}
    (h : (doc.set path value).2 = .error error) : (doc.set path value).1 = doc := by
  cases hv : path.valid with
  | false => rw [set_of_not_valid doc value hv]
  | true =>
    rw [set_of_valid doc value hv] at h ⊢
    cases hs : (write value doc path).2 with
    | none =>
      rw [hs] at h
      cases h
    | some segment => exact write_of_blocked hs

theorem rename_of_some {doc taken : Json} {old : Path} (h : (doc.delete old).1 = some taken)
    (new : Path) :
    doc.rename old new =
      (((doc.delete old).2.set new taken).1,
        ((doc.delete old).2.set new taken).2.map fun _ => true) := by
  rw [rename]
  cases hd : doc.delete old with
  | mk removed left =>
  rw [hd] at h
  cases h
  dsimp only
  cases left.set new taken with
  | mk sent result => cases result <;> rfl

theorem rename_of_none {doc : Json} {old : Path} (h : (doc.delete old).1 = none) (new : Path) :
    doc.rename old new = ((doc.delete old).2, .ok false) := by
  rw [rename]
  cases hd : doc.delete old with
  | mk removed left =>
  rw [hd] at h
  cases h
  rfl

/-- A document that refuses a value is left as it was, and where the refused value was to be moved,
only its removal from the old place remains. -/
theorem refused_intact (doc value : Json) (path old new : Path) (error : PathError) :
    ((doc.set path value).2 = .error error ↔ Refuses doc path error) ∧
    ((doc.set path value).2 = .error error → (doc.set path value).1 = doc) ∧
    ((doc.rename old new).2 = .error error ↔
      (doc.delete old).1.isSome = true ∧ Refuses (doc.delete old).2 new error) ∧
    ((doc.rename old new).2 = .error error → (doc.rename old new).1 = (doc.delete old).2) := by
  refine ⟨set_error_iff, set_of_error, ?_⟩
  cases hd : (doc.delete old).1 with
  | none =>
    rw [rename_of_none hd]
    exact ⟨⟨nofun, nofun⟩, nofun⟩
  | some taken =>
    have hmap : ∀ result : Except PathError Unit,
        result.map (fun _ => true) = .error error ↔ result = .error error := by
      rintro (e | u)
      · simp [Except.map]
      · simp [Except.map]
    rw [rename_of_some hd, hmap, set_error_iff]
    exact ⟨⟨fun h => ⟨rfl, h⟩, fun h => h.2⟩, fun h => set_of_error (set_error_iff.2 h)⟩

def endingInText : Json :=
  .object [("n", .number "1"), ("a", .array [.object [("b", .null)], .string "x"])]

theorem refused_intact_endingInText :
    (endingInText.set ["a", "1", "c"] .null).2 = .error (.notAContainer "a.1.c" "c") ∧
    (endingInText.set ["a", "1", "c"] .null).1 = endingInText ∧
    (endingInText.rename ["n"] ["a", "3"]).2 = .error (.notAContainer "a.3" "3") ∧
    (endingInText.rename ["n"] ["a", "3"]).1 =
      .object [("a", .array [.object [("b", .null)], .string "x"])] := by
  have hs : (endingInText.set ["a", "1", "c"] .null).2 =
    .error (.notAContainer "a.1.c" "c") := by rfl
  have hr : (endingInText.rename ["n"] ["a", "3"]).2 = .error (.notAContainer "a.3" "3") := by rfl
  exact ⟨hs, (refused_intact _ _ _ ["n"] ["a", "3"] _).2.1 hs, hr,
    (refused_intact endingInText .null [] _ _ _).2.2.2 hr⟩

end Dialogue.Json
