import Dialogue.Proofs.Document.Address

namespace Dialogue.Json

variable {node value : Json} {path : Path}

def appends : Json → Path → Bool
  | _, [] => false
  | node, segment :: rest => appendsAt node segment || appends (onward node segment) rest

theorem write_of_descend? (h : descend? node path = some value) :
    write value node path = (node, none) := by
  induction path generalizing node with
  | nil =>
    cases h
    rfl
  | cons segment rest ih =>
    obtain ⟨child, hc, hd⟩ := Option.bind_eq_some_iff.1 h
    rw [write_cons, if_pos (hasPlace_of_child? hc rest), onward_of_child? hc, ih hd,
      place_of_child? hc, putChild_child? hc]

theorem hasPlace_of_write {segment : String} {rest : Path}
    (h : (write value node (segment :: rest)).2 = none) : hasPlace node segment rest = true := by
  rw [write_cons] at h
  split at h
  · assumption
  · cases h

theorem descend?_write (h : (write value node path).2 = none) (ha : appends node path = false) :
    descend? (write value node path).1 path = some value := by
  induction path generalizing node with
  | nil => rfl
  | cons segment rest ih =>
    have hp := hasPlace_of_write h
    obtain ⟨hs, hr⟩ := Bool.or_eq_false_iff.1 ha
    rw [write_cons, if_pos hp] at h ⊢
    rw [descend?_cons (child?_place_of_eq hp _ rfl hs)]
    exact ih h hr

theorem write_write (h : (write value node path).2 = none) (ha : appends node path = false)
    (other : Json) :
    write other (write value node path).1 path = ((write other node path).1, none) := by
  induction path generalizing node with
  | nil => rfl
  | cons segment rest ih =>
    have hp := hasPlace_of_write h
    obtain ⟨hs, hr⟩ := Bool.or_eq_false_iff.1 ha
    rw [write_cons, if_pos hp] at h
    rw [write_cons value, if_pos hp, write_cons other node, if_pos hp]
    have hc := child?_place_of_eq hp (write value (onward node segment) rest).1 rfl hs
    rw [write_cons, if_pos (hasPlace_of_child? hc rest), onward_of_child? hc, ih h hr,
      place_place hp hs]

theorem write_fits (h : (write value node path).2 = none) (other : Json) :
    (write other node path).2 = none := by
  cases ho : (write other node path).2 with
  | none => rfl
  | some segment =>
    rw [(write_stops_iff value node path segment).2
      ((write_stops_iff other node path segment).1 ho)] at h
    cases h

theorem get?_eq_some_iff {doc : Json} :
    doc.get? path = some value ↔ path.valid = true ∧ descend? doc path = some value := by
  rw [get?, Option.ite_none_right_eq_some]

theorem set_of_write {doc : Json} (hv : path.valid = true)
    (h : (write value doc path).2 = none) :
    doc.set path value = ((write value doc path).1, .ok ()) := by
  rw [set_of_valid doc value hv, h]
  rfl

/-- Setting what was read changes nothing; what was set is read, and forgotten once something else
is set, unless the path appends to an array. -/
theorem lens_laws (doc value other : Json) (path : Path) :
    (doc.get? path = some value → doc.set path value = (doc, .ok ())) ∧
    ((doc.set path value).2 = .ok () → doc.appends path = false →
      (doc.set path value).1.get? path = some value ∧
      (doc.set path value).1.set path other = doc.set path other ∧
      (doc.set path other).2 = .ok ()) := by
  constructor
  · intro h
    obtain ⟨hv, hd⟩ := get?_eq_some_iff.1 h
    have hw := write_of_descend? hd
    rw [set_of_write hv (congrArg Prod.snd hw), hw]
  · intro h ha
    obtain ⟨hv, hw⟩ := set_ok_iff.1 h
    have hww := write_write hw ha other
    rw [set_of_write hv hw, set_of_write hv (write_fits hw other),
      set_of_write hv (congrArg Prod.snd hww), hww]
    exact ⟨get?_eq_some_iff.2 ⟨hv, descend?_write hw ha⟩, rfl, rfl⟩

def halfFilled : Json :=
  .object [("a", .array [.object [("b", .number "1")], .null]), ("n", .null)]

theorem lens_laws_halfFilled :
    halfFilled.set ["a", "+00", "b"] (.number "1") = (halfFilled, .ok ()) ∧
    (halfFilled.set ["a", "02"] .null).1.get? ["a", "02"] = some .null ∧
    (halfFilled.set ["n", "-1", "+1"] .null).1.set ["n", "-1", "+1"] (.array []) =
      halfFilled.set ["n", "-1", "+1"] (.array []) :=
  ⟨(lens_laws halfFilled (.number "1") .null ["a", "+00", "b"]).1 (by rfl),
    ((lens_laws halfFilled .null .null ["a", "02"]).2 (by rfl) (by rfl)).1,
    ((lens_laws halfFilled .null (.array []) ["n", "-1", "+1"]).2 (by rfl) (by rfl)).2.1⟩

end Dialogue.Json
