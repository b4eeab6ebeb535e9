import Dialogue.Proofs.Document.Frame

namespace Dialogue

namespace Address

/-- The second way leads through an array behind the item that the first one ends at. -/
inductive Behind : Address → Address → Prop where
  | here {i j : Nat} {rest : Address} (h : i < j) : Behind [.item i] (.item j :: rest)
  | under {s : Step} {a b : Address} (h : Behind a b) : Behind (s :: a) (s :: b)

end Address

namespace Json

open Dialogue.Path (index?)
open Address (Step Apart Behind)

variable {doc node child value : Json} {segment other last : String} {rest back : Path}

theorem remove_cons (hc : child? node segment = some child) (hr : rest ≠ []) :
    remove node (segment :: rest) =
      ((remove child rest).1, place node segment (remove child rest).2) := by
  obtain ⟨next, tail, rfl⟩ := List.exists_cons_of_ne_nil hr
  rw [remove, hc, place_of_child? hc]

theorem descend?_snoc (node : Json) (front : Path) (last : String) :
    descend? node (front ++ [last]) = (descend? node front).bind (child? · last) := by
  rw [descend?_append]
  congr 1
  funext parent
  exact Option.bind_fun_some _

theorem takeChild_fst (node : Json) (segment : String) :
    (takeChild node segment).1 = child? node segment := by
  cases node with
  | array xs =>
    rw [takeChild, child?]
    cases index? segment <;> rfl
  | _ => rfl

theorem takeChild_of_child?_eq_none (hc : child? node segment = none) :
    (takeChild node segment).2 = node := by
  cases node with
  | object ms => exact congrArg Json.object (erase_of_get?_eq_none hc)
  | array xs =>
    rw [takeChild]
    cases hi : index? segment with
    | none => rfl
    | some i =>
      rw [child?, hi, Option.bind_some, List.getElem?_eq_none_iff] at hc
      exact congrArg Json.array (List.eraseIdx_of_length_le hc)
  | _ => rfl

theorem exists_snoc_of_valid {path : Path} (hv : path.valid = true) :
    ∃ front last, path = front ++ [last] := by
  have hne : path ≠ [] := by
    rintro rfl
    cases hv
  exact ⟨path.dropLast, path.getLast hne, (List.dropLast_append_getLast hne).symm⟩

theorem delete_fst (doc : Json) (path : Path) : (doc.delete path).1 = doc.get? path := by
  cases hv : path.valid with
  | false => rw [delete, get?, hv]; rfl
  | true =>
    obtain ⟨front, last, rfl⟩ := exists_snoc_of_valid hv
    rw [delete, if_pos hv, get?_of_valid doc hv, remove_append, descend?_snoc]
    simp only [takeChild_fst]

theorem delete_of_get?_eq_none {path : Path} (h : doc.get? path = none) :
    (doc.delete path).2 = doc := by
  cases hv : path.valid with
  | false => rw [delete, hv]; rfl
  | true =>
    obtain ⟨front, last, rfl⟩ := exists_snoc_of_valid hv
    rw [get?_of_valid doc hv, descend?_snoc] at h
    rw [delete, if_pos hv, remove_append]
    apply modify_of_fixed
    intro parent hp
    rw [hp, Option.bind_some] at h
    exact takeChild_of_child?_eq_none h

/-! ### Past the removed node -/

theorem child?_takeChild_of_ne (hc : child? node segment = some child)
    (hs : step node other ≠ step node segment)
    (hb : ¬ Behind [step node segment] [step node other]) :
    child? (takeChild node segment).2 other = child? node other := by
  cases node with
  | object ms => exact Members.get?_erase_of_ne (fun h => hs (congrArg Step.key h)) ms
  | array xs =>
    obtain ⟨i, hi, -⟩ := lt_length_of_child? hc
    rw [takeChild, hi]
    cases hj : index? other with
    | none => rw [child?, child?, hj, Option.bind_none, Option.bind_none]
    | some j =>
      rw [step_of_index? hi, step_of_index? hj] at hs hb
      have hlt : j < i := by
        have hne : j ≠ i := fun h => hs (congrArg Step.item h)
        have hle : ¬ i < j := fun h => hb (.here h)
        omega
      rw [child?, child?, hj, Option.bind_some, Option.bind_some]
      exact List.getElem?_eraseIdx_of_lt hlt
  | _ => cases hc

theorem behind_of_head {s t : Step} {a : Address} (h : Behind [s] [t]) : Behind [s] (t :: a) := by
  cases h with
  | here h => exact .here h
  | under h => cases h

theorem not_behind_rest {p q : Path} (hs : step node other = step node segment)
    (h : ¬ Behind (address node (segment :: p)) (address node (other :: q))) :
    ¬ Behind (address (onward node segment) p) (address (onward node segment) q) := by
  rw [address_of_step_eq rfl, address_of_step_eq hs] at h
  exact fun hr => h (.under hr)

theorem descend?_takeChild_of_ne (hc : child? node segment = some child)
    (hs : step node other ≠ step node segment)
    (hb : ¬ Behind (address node [segment]) (address node (other :: back))) :
    descend? (takeChild node segment).2 (other :: back) = descend? node (other :: back) := by
  rw [descend?, descend?, child?_takeChild_of_ne hc hs fun h => hb (behind_of_head h)]

theorem descend?_remove_of_apart {p q : Path} (h : descend? node p = some value)
    (hq : Apart (address node p) (address node q))
    (hb : ¬ Behind (address node p) (address node q)) :
    descend? (remove node p).2 q = descend? node q := by
  induction p generalizing node q with
  | nil => cases hq
  | cons segment rest ih =>
    obtain ⟨child, hc, hd⟩ := Option.bind_eq_some_iff.1 h
    cases q with
    | nil => cases hq
    | cons other back =>
      cases rest with
      | nil =>
        -- Both paths are in the parent of the removed node, so they part here.
        refine descend?_takeChild_of_ne hc (fun hs => ?_) hb
        cases (apart_rest hs hq).2
      | cons next tail =>
        rw [remove_cons hc (List.cons_ne_nil next tail)]
        apply descend?_place_of_kept (hasPlace_of_child? hc [])
        intro hs
        obtain ⟨hne, hr⟩ := apart_rest hs hq
        have hb' := not_behind_rest hs hb
        rw [onward_of_child? hc] at hr hb' ⊢
        exact ⟨hne, ih hd hr hb'⟩

/-! ### Behind the removed node -/

theorem descend?_remove_of_behind {p front : Path} {lower upper : String} {i j : Nat}
    (h : descend? node p = some value) (hp : address node p = address node front ++ [.item i])
    (hij : i ≤ j) (hl : index? lower = some j) (hu : index? upper = some (j + 1)) (back : Path) :
    descend? (remove node p).2 (front ++ lower :: back) =
      descend? node (front ++ upper :: back) := by
  induction front generalizing node p with
  | nil =>
    cases p with
    | nil => cases hp
    | cons segment rest =>
      obtain ⟨hs, hr⟩ := List.cons.inj hp
      obtain rfl := address_eq_nil_iff.1 hr
      obtain ⟨child, hc, -⟩ := Option.bind_eq_some_iff.1 h
      cases node with
      | array xs =>
        have hi := index?_of_step hs (appendsAt_of_child? hc)
        have hx : child? (.array (xs.eraseIdx i)) lower = child? (.array xs) upper := by
          rw [child?, child?, hl, hu]
          exact List.getElem?_eraseIdx_of_ge hij
        rw [remove, takeChild, hi, List.nil_append, List.nil_append, descend?, hx, descend?]
      | object ms => cases hs
      | _ => cases hc
  | cons first front ih =>
    cases p with
    | nil => cases hp
    | cons segment rest =>
      obtain ⟨hs, hr⟩ := List.cons.inj hp
      obtain ⟨child, hc, hd⟩ := Option.bind_eq_some_iff.1 h
      -- Two spellings of one step lead to one child.
      have hf : child? node first = some child := by rw [child?_of_step_eq hs.symm, hc]
      have hne : rest ≠ [] := by
        rintro rfl
        exact List.append_ne_nil_of_right_ne_nil _ (List.cons_ne_nil _ _) hr.symm
      rw [onward_of_child? hc, onward_of_child? hf] at hr
      rw [remove_cons hc hne, List.cons_append, List.cons_append, descend?_cons hf,
        descend?_place_of_eq (hasPlace_of_child? hc []) _ hs.symm (appendsAt_of_child? hf)]
      exact ih hd hr

/-! ### The keys on the way -/

inductive KeysAfterRemoval (path object : Address) (ms : Members) : Json → Prop where
  | same {kept : Members} (hp : ∀ key, object ++ [.key key] ≠ path)
      (h : kept.map Prod.fst = ms.map Prod.fst) : KeysAfterRemoval path object ms (.object kept)
  | fewer {kept : Members} {key : String} (hp : object ++ [.key key] = path)
      (h : kept.map Prod.fst = (ms.map Prod.fst).erase key) :
      KeysAfterRemoval path object ms (.object kept)

theorem KeysAfterRemoval.under {path object : Address} {ms : Members} {kept : Json}
    (h : KeysAfterRemoval path object ms kept) (s : Step) :
    KeysAfterRemoval (s :: path) (s :: object) ms kept := by
  cases h with
  | same hp h => exact .same (fun key he => hp key (List.cons.inj he).2) h
  | fewer hp h => exact .fewer (congrArg (s :: ·) hp) h

theorem keysAfterRemoval_remove {p q : Path} {ms : Members} (h : descend? node p = some value)
    (hq : descend? node q = some (.object ms)) (hn : ¬ address node p <+: address node q)
    (hb : ¬ Behind (address node p) (address node q)) :
    ∃ kept, descend? (remove node p).2 q = some kept ∧
      KeysAfterRemoval (address node p) (address node q) ms kept := by
  induction q generalizing node p with
  | nil =>
    cases hq
    cases p with
    | nil => exact absurd List.prefix_rfl hn
    | cons segment rest =>
      cases rest with
      | nil => exact ⟨_, rfl, .fewer rfl (Members.keys_erase segment ms)⟩
      | cons next tail =>
        obtain ⟨child, hc, -⟩ := Option.bind_eq_some_iff.1 h
        rw [remove_cons hc (List.cons_ne_nil next tail)]
        refine ⟨_, rfl, .same (fun key he => ?_)
          (Members.keys_put_of_mem (Members.mem_keys_of_get? hc))⟩
        exact List.cons_ne_nil _ _ (List.cons.inj he).2.symm
  | cons other back ih =>
    cases p with
    | nil => exact absurd List.nil_prefix hn
    | cons segment rest =>
      obtain ⟨child, hc, hd⟩ := Option.bind_eq_some_iff.1 h
      cases rest with
      | nil =>
        have hs : step node other ≠ step node segment := by
          intro hs
          exact not_prefix_rest hs hn List.nil_prefix
        refine ⟨_, (descend?_takeChild_of_ne hc hs hb).trans hq, .same (fun key he => ?_) rfl⟩
        exact not_prefix_of_step_ne hs [] back [.key key] (he ▸ List.prefix_rfl)
      | cons next tail =>
        rw [remove_cons hc (List.cons_ne_nil next tail)]
        apply exists_descend?_place (hasPlace_of_child? hc []) hq
        · intro hs
          refine .same (fun key he => ?_) rfl
          exact not_prefix_of_step_ne hs (next :: tail) back [.key key] (he ▸ List.prefix_rfl)
        · intro hs ho
          have hn' := not_prefix_rest hs hn
          have hb' := not_behind_rest hs hb
          rw [onward_of_child? hc] at ho hn' hb'
          obtain ⟨kept, hk, hr⟩ := ih hd ho hn' hb'
          refine ⟨kept, hk, ?_⟩
          rw [address_of_step_eq rfl, address_of_step_eq hs, onward_of_child? hc]
          exact hr.under _

structure RemovalKeeps (doc : Json) (path : Path) (left : Json) : Prop where
  elsewhere : ∀ other, Apart (doc.address path) (doc.address other) →
    ¬ Behind (doc.address path) (doc.address other) → left.get? other = doc.get? other
  moved : ∀ (front back : Path) (lower upper : String) (i j : Nat),
    doc.address path = doc.address front ++ [.item i] → i ≤ j → index? lower = some j →
      index? upper = some (j + 1) →
        left.get? (front ++ lower :: back) = doc.get? (front ++ upper :: back)
  keys : ∀ other ms, descend? doc other = some (.object ms) →
    ¬ doc.address path <+: doc.address other → ¬ Behind (doc.address path) (doc.address other) →
      ∃ kept, descend? left other = some kept ∧
        KeysAfterRemoval (doc.address path) (doc.address other) ms kept

theorem ne_empty_of_index? {i : Nat} (h : index? segment = some i) : segment ≠ "" := by
  rintro rfl
  cases h

theorem valid_of_other_segment {lower upper : String} (hl : lower ≠ "") (hu : upper ≠ "")
    (front back : Path) :
    Path.valid (front ++ lower :: back) = Path.valid (front ++ upper :: back) := by
  cases front with
  | nil => simp [Path.valid, hl, hu]
  | cons => simp [Path.valid, hl, hu]

theorem removalKeeps_delete {path : Path} (h : doc.get? path = some value) :
    RemovalKeeps doc path (doc.delete path).2 := by
  obtain ⟨hv, hd⟩ := get?_eq_some_iff.1 h
  rw [delete, if_pos hv]
  exact {
    elsewhere := fun other ho hb => get?_eq_of_descend? rfl (descend?_remove_of_apart hd ho hb)
    moved := fun front back lower upper i j hp hij hl hu => by
      apply get?_eq_of_descend?
      · exact valid_of_other_segment (ne_empty_of_index? hl) (ne_empty_of_index? hu) front back
      · exact descend?_remove_of_behind hd hp hij hl hu back
    keys := fun other ms ho hn hb => keysAfterRemoval_remove hd ho hn hb }

/-! ### Taking out what was put in -/

inductive Vacant : Json → String → Prop where
  | key {ms : Members} {segment : String} (h : segment ∉ ms.map Prod.fst) :
      Vacant (.object ms) segment
  | item {xs : List Json} {segment : String} (h : index? segment = some xs.length) :
      Vacant (.array xs) segment

theorem Vacant.hasPlace (h : Vacant node segment) : hasPlace node segment [] = true := by
  cases h with
  | key => rfl
  | item h => simp [Json.hasPlace, h]

theorem Vacant.takeChild_place (h : Vacant node segment) (value : Json) :
    takeChild (place node segment value) segment = (some value, node) := by
  cases h with
  | key h =>
    change (Members.get? segment (Members.put segment value _), Json.object _) = _
    rw [Members.get?_put_self, Members.erase_put_of_not_mem h]
  | @item xs _ h =>
    have hp : place (.array xs) segment value = .array (xs ++ [value]) := by
      simp [place, assign?, ne_appendSegment_of_index? h, h]
    have he : (xs ++ [value]).eraseIdx xs.length = xs := by
      simp [List.eraseIdx_append_of_length_le (Nat.le_refl _)]
    rw [hp, takeChild, h]
    simp [he]

theorem delete_set_of_vacant {front : Path} {parent : Json}
    (hd : descend? doc front = some parent) (hl : Vacant parent last) (value : Json) :
    ((doc.set (front ++ [last]) value).1.delete (front ++ [last])).2 = doc ∧
    (Path.valid (front ++ [last]) = true → (doc.set (front ++ [last]) value).2 = .ok () ∧
      ((doc.set (front ++ [last]) value).1.delete (front ++ [last])).1 = some value) := by
  cases hv : Path.valid (front ++ [last]) with
  | false =>
    rw [set_of_not_valid doc value hv, delete, hv]
    exact ⟨rfl, fun h => absurd h Bool.false_ne_true⟩
  | true =>
    have ha : assign? parent last value = some (place parent last value) := by
      rw [assign?_eq, if_pos hl.hasPlace]
    have hw := write_append value hd ha
    rw [set_of_write hv (congrArg Prod.snd hw), hw]
    dsimp only
    rw [delete, if_pos hv, remove_append, descend?_modify, hd, Option.map_some, Option.bind_some,
      hl.takeChild_place, modify_modify]
    refine ⟨modify_of_fixed fun n hn => ?_, fun _ => ⟨rfl, rfl⟩⟩
    rw [hd] at hn
    cases hn
    exact congrArg Prod.snd (hl.takeChild_place value)

/-- A write touches only the node at its path.  So does a removal, but for the items behind the
removed one; it gives what was read there, and undoes a write behind all others. -/
theorem only_addressed (doc value : Json) (path : Path) :
    ((doc.set path value).2 = .ok () → WriteKeeps doc path (doc.set path value).1) ∧
    (doc.delete path).1 = doc.get? path ∧
    (doc.get? path = none → (doc.delete path).2 = doc) ∧
    ((doc.get? path).isSome = true → RemovalKeeps doc path (doc.delete path).2) ∧
    ∀ front last parent, path = front ++ [last] → descend? doc front = some parent →
      Vacant parent last →
        ((doc.set path value).1.delete path).2 = doc ∧
        (path.valid = true → (doc.set path value).2 = .ok () ∧
          ((doc.set path value).1.delete path).1 = some value) := by
  refine ⟨writeKeeps_of_set, delete_fst doc path, delete_of_get?_eq_none, fun h => ?_, ?_⟩
  · obtain ⟨found, hf⟩ := Option.isSome_iff_exists.1 h
    exact removalKeeps_delete hf
  · rintro front last parent rfl hd hl
    exact delete_set_of_vacant hd hl value

def threeItems : Json :=
  .object [("a", .array [.number "1", .object [("b", .number "2")], .string "x"])]

theorem only_addressed_threeItems :
    (threeItems.set ["a", "+1", "c"] .null).1.get? ["a", "01", "b"] = some (.number "2") ∧
    (threeItems.delete ["a", "00"]).1 = some (.number "1") ∧
    (threeItems.delete ["a", "00"]).2.get? ["a", "0", "b"] = some (.number "2") ∧
    ((threeItems.set ["a", "03"] .null).1.delete ["a", "03"]).2 = threeItems := by
  refine ⟨?_, ?_, ?_, ?_⟩
  · have hw := (only_addressed threeItems .null ["a", "+1", "c"]).1 (by rfl)
    exact (hw.elsewhere ["a", "01", "b"] (.under (.under (.here (by decide))))).trans (by rfl)
  · exact (only_addressed threeItems .null ["a", "00"]).2.1.trans (by rfl)
  · have hr := (only_addressed threeItems .null ["a", "00"]).2.2.2.1 (by rfl)
    exact (hr.moved ["a"] ["b"] "0" "1" 0 0 (by rfl) (Nat.le_refl 0) (by rfl) (by rfl)).trans
      (by rfl)
  · exact ((only_addressed threeItems .null ["a", "03"]).2.2.2.2 ["a"] "03" _ rfl rfl
      (.item (by rfl))).1

end Json

end Dialogue
