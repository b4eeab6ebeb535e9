import Dialogue.Proofs.Document.Lens

namespace Dialogue.Json

open Address (Step Apart)

variable {node child value found : Json} {segment other : String} {rest back : Path}

theorem descend?_onward (node : Json) (segment : String) (hb : back ≠ []) :
    descend? node (segment :: back) = descend? (onward node segment) back := by
  cases hc : child? node segment with
  | some child => rw [descend?_cons hc, onward_of_child? hc]
  | none =>
    obtain ⟨next, tail, rfl⟩ := List.exists_cons_of_ne_nil hb
    rw [descend?_cons_none hc, onward, hc]
    rfl

theorem descend?_place_of_ne (hp : hasPlace node segment rest = true) (value : Json)
    (hs : step node other ≠ step node segment) (back : Path) :
    descend? (place node segment value) (other :: back) = descend? node (other :: back) := by
  rw [descend?, descend?, child?_place_of_ne hp value hs]

theorem descend?_place_of_eq (hp : hasPlace node segment rest = true) (value : Json)
    (hs : step node other = step node segment) (ha : appendsAt node other = false) (back : Path) :
    descend? (place node segment value) (other :: back) = descend? value back :=
  descend?_cons (child?_place_of_eq hp value hs ha) back

theorem descend?_place_of_kept (hp : hasPlace node segment rest = true)
    (h : step node other = step node segment →
      back ≠ [] ∧ descend? value back = descend? (onward node segment) back) :
    descend? (place node segment value) (other :: back) = descend? node (other :: back) := by
  by_cases hs : step node other = step node segment
  · obtain ⟨hb, hv⟩ := h hs
    cases ha : appendsAt node other with
    | true =>
      -- A segment that appends leads nowhere, before and after.
      rw [descend?_cons_none (child?_of_appendsAt ha),
        descend?_cons_none (child?_of_appendsAt ((appendsAt_place hp value other).trans ha))]
    | false =>
      rw [descend?_place_of_eq hp value hs ha, hv, ← onward_of_step_eq hs, descend?_onward _ _ hb]
  · exact descend?_place_of_ne hp value hs back

theorem apart_rest {p q : Path} (hs : step node other = step node segment)
    (h : Apart (address node (segment :: p)) (address node (other :: q))) :
    q ≠ [] ∧ Apart (address (onward node segment) p) (address (onward node segment) q) := by
  rw [address_of_step_eq rfl, address_of_step_eq hs] at h
  refine ⟨?_, h.rest⟩
  rintro rfl
  exact Address.not_apart_nil h.rest

theorem descend?_write_of_apart {p q : Path} (h : (write value node p).2 = none)
    (hq : Apart (address node p) (address node q)) :
    descend? (write value node p).1 q = descend? node q := by
  induction p generalizing node q with
  | nil => cases hq
  | cons segment rest ih =>
    have hp := hasPlace_of_write h
    rw [write_cons, if_pos hp] at h ⊢
    cases q with
    | nil => cases hq
    | cons other back =>
      apply descend?_place_of_kept hp
      intro hs
      obtain ⟨hb, hr⟩ := apart_rest hs hq
      exact ⟨hb, ih h hr⟩

theorem exists_descend?_place {R : Json → Prop} (hp : hasPlace node segment rest = true)
    (h : descend? node (other :: back) = some found)
    (hpast : step node other ≠ step node segment → R found)
    (hthrough : step node other = step node segment →
      descend? (onward node segment) back = some found →
      ∃ kept, descend? value back = some kept ∧ R kept) :
    ∃ kept, descend? (place node segment value) (other :: back) = some kept ∧ R kept := by
  by_cases hs : step node other = step node segment
  · obtain ⟨child, hc, hd⟩ := Option.bind_eq_some_iff.1 h
    rw [descend?_place_of_eq hp value hs (appendsAt_of_child? hc)]
    apply hthrough hs
    rwa [← onward_of_step_eq hs, onward_of_child? hc]
  · exact ⟨found, by rw [descend?_place_of_ne hp value hs, h], hpast hs⟩

theorem not_prefix_rest {p q : Path} (hs : step node other = step node segment)
    (h : ¬ address node (segment :: p) <+: address node (other :: q)) :
    ¬ address (onward node segment) p <+: address (onward node segment) q := by
  rwa [address_of_step_eq rfl, address_of_step_eq hs, List.prefix_cons_inj] at h

theorem not_prefix_of_step_ne (hs : step node other ≠ step node segment) (rest back : Path)
    (a : Address) : ¬ address node (other :: back) ++ a <+: address node (segment :: rest) := by
  rw [address, address, List.cons_append, List.cons_prefix_cons]
  exact fun h => hs h.1

inductive KeysAfterWrite (path object : Address) (ms : Members) : Json → Prop where
  | same {kept : Members} (hk : ∀ key, object ++ [.key key] <+: path → key ∈ ms.map Prod.fst)
      (h : kept.map Prod.fst = ms.map Prod.fst) : KeysAfterWrite path object ms (.object kept)
  | more {kept : Members} {key : String} (hk : key ∉ ms.map Prod.fst)
      (hp : object ++ [.key key] <+: path) (h : kept.map Prod.fst = ms.map Prod.fst ++ [key]) :
      KeysAfterWrite path object ms (.object kept)

theorem KeysAfterWrite.under {path object : Address} {ms : Members} {kept : Json}
    (h : KeysAfterWrite path object ms kept) (s : Step) :
    KeysAfterWrite (s :: path) (s :: object) ms kept := by
  cases h with
  | same hk h => exact .same (fun key hp => hk key ((List.prefix_cons_inj s).1 hp)) h
  | more hk hp h => exact .more hk ((List.prefix_cons_inj s).2 hp) h

theorem keysAfterWrite_put (ms : Members) (key : String) (value : Json) (path : Address) :
    KeysAfterWrite (.key key :: path) [] ms (.object (Members.put key value ms)) := by
  by_cases hk : key ∈ ms.map Prod.fst
  · refine .same (fun other hp => ?_) (Members.keys_put_of_mem hk)
    cases (List.cons_prefix_cons.1 hp).1
    exact hk
  · refine .more hk ⟨path, rfl⟩ ?_
    rw [Members.put_of_not_mem hk, List.map_append]
    rfl

theorem keysAfterWrite_write {p q : Path} {ms : Members} (h : (write value node p).2 = none)
    (hq : descend? node q = some (.object ms)) (hn : ¬ address node p <+: address node q) :
    ∃ kept, descend? (write value node p).1 q = some kept ∧
      KeysAfterWrite (address node p) (address node q) ms kept := by
  -- Along the path that is read; the written one goes with it until they part, and goes on beyond
  -- its end if they do not.
  induction q generalizing node p with
  | nil =>
    cases hq
    cases p with
    | nil => exact absurd List.prefix_rfl hn
    | cons segment rest =>
      rw [write_cons, if_pos (hasPlace_of_write h)]
      exact ⟨_, rfl, keysAfterWrite_put ms segment _ _⟩
  | cons other back ih =>
    cases p with
    | nil => exact absurd List.nil_prefix hn
    | cons segment rest =>
      have hp := hasPlace_of_write h
      rw [write_cons, if_pos hp] at h ⊢
      apply exists_descend?_place hp hq
      · intro hs
        exact .same (fun key hp => absurd hp (not_prefix_of_step_ne hs rest back _)) rfl
      · intro hs hd
        obtain ⟨kept, hk, hr⟩ := ih h hd (not_prefix_rest hs hn)
        refine ⟨kept, hk, ?_⟩
        rw [address_of_step_eq hs]
        exact hr.under _

structure WriteKeeps (doc : Json) (path : Path) (sent : Json) : Prop where
  elsewhere : ∀ other, Apart (doc.address path) (doc.address other) →
    sent.get? other = doc.get? other
  keys : ∀ other ms, descend? doc other = some (.object ms) →
    ¬ doc.address path <+: doc.address other →
      ∃ kept, descend? sent other = some kept ∧
        KeysAfterWrite (doc.address path) (doc.address other) ms kept

theorem get?_eq_of_descend? {doc sent : Json} {path path' : Path}
    (hv : path.valid = path'.valid) (hd : descend? sent path = descend? doc path') :
    sent.get? path = doc.get? path' := by
  rw [get?, get?, hv, hd]

theorem writeKeeps_of_set {doc : Json} {path : Path} (h : (doc.set path value).2 = .ok ()) :
    WriteKeeps doc path (doc.set path value).1 := by
  obtain ⟨hv, hw⟩ := set_ok_iff.1 h
  rw [set_of_write hv hw]
  exact {
    elsewhere := fun other ho => get?_eq_of_descend? rfl (descend?_write_of_apart hw ho)
    keys := fun other ms ho hn => keysAfterWrite_write hw ho hn }

end Dialogue.Json
