import Dialogue.Document
import Mathlib.Data.List.Basic

namespace Dialogue.Json

open Dialogue.Path (index? appendSegment)

def modify (f : Json → Json) : Json → Path → Json
  | node, [] => f node
  | node, segment :: rest =>
    match child? node segment with
    | some child => putChild node segment (modify f child rest)
    | none => node

variable {node child value : Json} {segment : String}

theorem modify_cons (h : child? node segment = some child) (f : Json → Json) (rest : Path) :
    modify f node (segment :: rest) = putChild node segment (modify f child rest) := by
  rw [modify, h]

theorem modify_cons_none (h : child? node segment = none) (f : Json → Json) (rest : Path) :
    modify f node (segment :: rest) = node := by
  rw [modify, h]

theorem descend?_cons (h : child? node segment = some child) (rest : Path) :
    descend? node (segment :: rest) = descend? child rest := by
  rw [descend?, h]
  rfl

theorem descend?_cons_none (h : child? node segment = none) (rest : Path) :
    descend? node (segment :: rest) = none := by
  rw [descend?, h]
  rfl

theorem child?_putChild (h : child? node segment = some child) (value : Json) :
    child? (putChild node segment value) segment = some value := by
  cases node with
  | object ms => exact Members.get?_put_self segment value ms
  | array xs =>
    cases hi : index? segment with
    | none => simp [child?, hi] at h
    | some i =>
      have hx : xs[i]? = some child := by simpa [child?, hi] using h
      simp [child?, putChild, hi, (List.getElem?_eq_some_iff.1 hx).1]
  | _ => cases h

theorem putChild_putChild (node : Json) (segment : String) (v w : Json) :
    putChild (putChild node segment v) segment w = putChild node segment w := by
  cases node with
  | object ms => simp [putChild]
  | array xs => cases hi : index? segment <;> simp [putChild, hi]
  | _ => rfl

theorem putChild_child? (h : child? node segment = some child) :
    putChild node segment child = node := by
  cases node with
  | object ms => exact congrArg Json.object (Members.put_of_get? h)
  | array xs =>
    cases hi : index? segment with
    | none => simp [putChild, hi]
    | some i =>
      have hx : xs[i]? = some child := by simpa [child?, hi] using h
      obtain ⟨hlt, rfl⟩ := List.getElem?_eq_some_iff.1 hx
      simp [putChild, hi]
  | _ => rfl

theorem descend?_append (node : Json) (p q : Path) :
    descend? node (p ++ q) = (descend? node p).bind (descend? · q) := by
  induction p generalizing node with
  | nil => rfl
  | cons segment rest ih =>
    rw [List.cons_append, descend?, descend?, Option.bind_assoc]
    congr 1
    funext child
    exact ih child

theorem modify_append (f : Json → Json) (node : Json) (p q : Path) :
    modify f node (p ++ q) = modify (fun n => modify f n q) node p := by
  induction p generalizing node with
  | nil => rfl
  | cons segment rest ih =>
    rw [List.cons_append, modify, modify]
    cases child? node segment with
    | none => rfl
    | some child => exact congrArg (putChild node segment) (ih child)

theorem modify_modify (f g : Json → Json) (node : Json) (p : Path) :
    modify g (modify f node p) p = modify (g ∘ f) node p := by
  induction p generalizing node with
  | nil => rfl
  | cons segment rest ih =>
    cases hc : child? node segment with
    | none => rw [modify_cons_none hc, modify_cons_none hc, modify_cons_none hc]
    | some child =>
      rw [modify_cons hc, modify_cons hc, modify_cons (child?_putChild hc _), putChild_putChild, ih]

theorem modify_congr {f g : Json → Json} {p : Path}
    (h : ∀ n, descend? node p = some n → f n = g n) : modify f node p = modify g node p := by
  induction p generalizing node with
  | nil => exact h node rfl
  | cons segment rest ih =>
    cases hc : child? node segment with
    | none => rw [modify_cons_none hc, modify_cons_none hc]
    | some child =>
      rw [modify_cons hc, modify_cons hc]
      apply congrArg (putChild node segment)
      apply ih
      intro n hn
      exact h n (by rw [descend?_cons hc, hn])

theorem modify_id (node : Json) (p : Path) : modify id node p = node := by
  induction p generalizing node with
  | nil => rfl
  | cons segment rest ih =>
    cases hc : child? node segment with
    | none => exact modify_cons_none hc ..
    | some child => rw [modify_cons hc, ih, putChild_child? hc]

theorem modify_of_fixed {f : Json → Json} {p : Path}
    (h : ∀ n, descend? node p = some n → f n = n) : modify f node p = node :=
  (modify_congr h).trans (modify_id node p)

theorem descend?_modify (f : Json → Json) (node : Json) (p : Path) :
    descend? (modify f node p) p = (descend? node p).map f := by
  induction p generalizing node with
  | nil => rfl
  | cons segment rest ih =>
    cases hc : child? node segment with
    | none => rw [modify_cons_none hc, descend?_cons_none hc, Option.map_none]
    | some child =>
      rw [modify_cons hc, descend?_cons (child?_putChild hc _), descend?_cons hc, ih]

theorem exchange?_eq (value node : Json) (p : Path) :
    exchange? value node p = (descend? node p).map fun _ => modify (fun _ => value) node p := by
  induction p generalizing node with
  | nil => rfl
  | cons segment rest ih =>
    rw [exchange?]
    cases hc : child? node segment with
    | none =>
      rw [descend?_cons_none hc]
      rfl
    | some child =>
      rw [descend?_cons hc, modify_cons hc]
      change (exchange? value child rest).bind _ = _
      rw [ih]
      cases descend? child rest <;> rfl

theorem get?_of_valid (doc : Json) {p : Path} (hp : p.valid = true) :
    doc.get? p = descend? doc p := by rw [get?, if_pos hp]

def mapItems (f : Json → Json) : Json → Json
  | .array xs => .array (xs.map f)
  | other => other

theorem mapItems_of_fixed {f : Json → Json}
    (h : ∀ items, node = .array items → ∀ item ∈ items, f item = item) :
    mapItems f node = node := by
  cases node with
  | array items =>
    exact congrArg Json.array ((List.map_congr_left (h items rfl)).trans (List.map_id items))
  | _ => rfl

theorem modify_item (f : Json → Json) (xs : List Json) (i : Nat) :
    modify f (.array xs) [toString i] = .array (xs.modify i f) := by
  have hc : child? (.array xs) (toString i) = xs[i]? := by
    rw [child?, Path.index?_toString, Option.bind_some]
  rw [List.modify_eq_set_getElem?]
  cases hx : xs[i]? with
  | none =>
    rw [modify_cons_none (hc.trans hx)]
    rfl
  | some x =>
    rw [modify_cons (hc.trans hx), putChild, Path.index?_toString]
    rfl

theorem getElem?_foldl_modify (f : Json → Json) (xs : List Json) (k j : Nat) :
    ((List.range k).foldl (fun ys i => ys.modify i f) xs)[j]? =
      xs[j]?.map fun x => if j < k then f x else x := by
  induction k with
  | zero => simp
  | succ k ih =>
    rw [List.range_succ, List.foldl_append, List.foldl_cons, List.foldl_nil, List.getElem?_modify,
      ih]
    cases xs[j]? with
    | none => rfl
    | some x =>
      rcases Nat.lt_trichotomy j k with h | h | h
      · simp [h, Nat.ne_of_gt h, Nat.lt_succ_of_lt h]
      · simp [h]
      · simp [Nat.not_lt_of_gt h, Nat.ne_of_lt h, Nat.not_lt.2 h]

theorem foldl_modify_length (f : Json → Json) (xs : List Json) :
    (List.range xs.length).foldl (fun ys i => ys.modify i f) xs = xs.map f := by
  apply List.ext_getElem?
  intro j
  rw [getElem?_foldl_modify, List.getElem?_map]
  cases hx : xs[j]? with
  | none => rfl
  | some x => rw [Option.map_some, Option.map_some, if_pos (List.getElem?_eq_some_iff.1 hx).1]

theorem foldl_modify_array (f : Json → Json) (xs : List Json) (is : List Nat) :
    is.foldl (fun d i => modify f d [toString i]) (.array xs) =
      .array (is.foldl (fun ys i => ys.modify i f) xs) := by
  induction is generalizing xs with
  | nil => rfl
  | cons i rest ih => rw [List.foldl_cons, modify_item, ih, List.foldl_cons]

theorem foldl_modify_items (f : Json → Json) (doc : Json) {p : Path} (hp : p.valid = true) :
    (List.range (doc.lengthAt p)).foldl (fun d i => modify f d (p ++ [toString i])) doc =
      modify (mapItems f) doc p := by
  have step : ∀ k, (List.range k).foldl (fun d i => modify f d (p ++ [toString i])) doc =
      modify (fun node => (List.range k).foldl (fun d i => modify f d [toString i]) node)
        doc p := by
    intro k
    induction k with
    | zero => exact (modify_id doc p).symm
    | succ k ih =>
      rw [List.range_succ, List.foldl_append, ih, List.foldl_cons, List.foldl_nil, modify_append,
        modify_modify]
      congr 1
      funext node
      rw [List.foldl_append]
      rfl
  rw [step]
  apply modify_congr
  intro node hd
  rw [lengthAt, get?_of_valid doc hp, hd]
  cases node with
  | array xs =>
    change (List.range xs.length).foldl _ _ = Json.array (xs.map f)
    rw [foldl_modify_array, foldl_modify_length]
  | _ => rfl

end Dialogue.Json
