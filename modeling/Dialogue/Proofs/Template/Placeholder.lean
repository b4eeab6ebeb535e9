import Dialogue.Template
import Mathlib.Data.List.TakeWhile

namespace Dialogue.Template

structure IsName (name : List Char) : Prop where
  nonempty : name ≠ []
  plain : ∀ c ∈ name, c ≠ '\x7d' ∧ c ≠ ':'

/-- The three ways to write a placeholder.  Behind a colon alone, a default cannot begin with a
hyphen, which would belong to the colon. -/
inductive Written : Placeholder → List Char → Prop where
  | bare {name : List Char} (hn : IsName name) :
      Written ⟨String.ofList name, ""⟩ ('$' :: '\x7b' :: name ++ ['\x7d'])
  | hyphen {name default : List Char} (hn : IsName name) (hd : '\x7d' ∉ default) :
      Written ⟨String.ofList name, String.ofList default⟩
        ('$' :: '\x7b' :: name ++ ':' :: '-' :: default ++ ['\x7d'])
  | colon {name default : List Char} (hn : IsName name) (hd : '\x7d' ∉ default)
      (hh : default.head? ≠ some '-') :
      Written ⟨String.ofList name, String.ofList default⟩
        ('$' :: '\x7b' :: name ++ ':' :: default ++ ['\x7d'])

variable {name default text after written : List Char} {p : Placeholder}

theorem isNameChar_iff {c : Char} : isNameChar c = true ↔ c ≠ '\x7d' ∧ c ≠ ':' := by
  simp [isNameChar]

theorem takeWhile_until {q : Char → Bool} {word : List Char} {c : Char}
    (h : ∀ d ∈ word, q d = true) (hc : q c = false) (rest : List Char) :
    (word ++ c :: rest).takeWhile q = word ∧ (word ++ c :: rest).dropWhile q = c :: rest := by
  simp [List.takeWhile_append_of_pos h, List.dropWhile_append_of_pos h, hc]

theorem takeWhile_name {c : Char} (hn : IsName name) (hc : isNameChar c = false)
    (rest : List Char) : (name ++ c :: rest).takeWhile isNameChar = name ∧
      (name ++ c :: rest).dropWhile isNameChar = c :: rest :=
  takeWhile_until (fun d hd => isNameChar_iff.2 (hn.plain d hd)) hc rest

theorem dropHyphen_of_head? (h : text.head? ≠ some '-') : dropHyphen text = text := by
  unfold dropHyphen
  split
  · exact absurd rfl h
  · rfl

theorem takeWhile_default (hd : '\x7d' ∉ default) (rest : List Char) :
    (default ++ '\x7d' :: rest).takeWhile (· ≠ '\x7d') = default ∧
      (default ++ '\x7d' :: rest).dropWhile (· ≠ '\x7d') = '\x7d' :: rest := by
  apply takeWhile_until
  · exact fun c hc => decide_eq_true fun he => hd (he ▸ hc)
  · rfl

theorem default?_colon (h : dropHyphen text = default ++ '\x7d' :: after)
    (hd : '\x7d' ∉ default) : default? (':' :: text) = some (default, after) := by
  obtain ⟨htake, hdrop⟩ := takeWhile_default hd after
  simp only [default?, h, htake, hdrop]

theorem placeholder?_of_default? {rest : List Char} (hn : IsName name)
    (ht : text.takeWhile isNameChar = name ∧ text.dropWhile isNameChar = rest)
    (h : default? rest = some (default, after)) :
    placeholder? ('$' :: '\x7b' :: text) =
      some (⟨String.ofList name, String.ofList default⟩, after) := by
  simp [placeholder?, ht.1, ht.2, h, hn.nonempty]

theorem placeholder?_of_written (h : Written p written) (rest : List Char) :
    placeholder? (written ++ rest) = some (p, rest) := by
  cases h with
  | bare hn =>
    have ht := takeWhile_name (c := '\x7d') hn rfl rest
    simpa using placeholder?_of_default? hn ht rfl
  | @hyphen name default hn hd =>
    have ht := takeWhile_name (c := ':') hn rfl ('-' :: default ++ '\x7d' :: rest)
    simpa using placeholder?_of_default? hn ht (default?_colon rfl hd)
  | @colon name default hn hd hh =>
    have ht := takeWhile_name (c := ':') hn rfl (default ++ '\x7d' :: rest)
    have hkept : dropHyphen (default ++ '\x7d' :: rest) = default ++ '\x7d' :: rest := by
      apply dropHyphen_of_head?
      cases default with
      | nil => simp
      | cons => simpa using hh
    simpa using placeholder?_of_default? hn ht (default?_colon hkept hd)

theorem eq_of_dropHyphen (text : List Char) :
    text = '-' :: dropHyphen text ∨ text = dropHyphen text ∧ text.head? ≠ some '-' := by
  unfold dropHyphen
  split
  · exact .inl rfl
  · next hne => exact .inr ⟨rfl, fun hh => by cases text <;> simp_all⟩

theorem default?_eq_some (h : default? text = some (default, after)) :
    (default = [] ∧ text = '\x7d' :: after) ∨
      '\x7d' ∉ default ∧ ∃ rest, text = ':' :: rest ∧
        dropHyphen rest = default ++ '\x7d' :: after := by
  unfold default? at h
  split at h
  · cases h
    exact .inl ⟨rfl, rfl⟩
  · next rest =>
    have hrest := List.takeWhile_append_dropWhile (p := (· ≠ '\x7d')) (l := dropHyphen rest)
    split at h
    · cases h
    · next c after' hdrop =>
      cases h
      have hc : c = '\x7d' := by
        have hhead := List.head?_dropWhile_not (· ≠ '\x7d') (dropHyphen rest)
        rw [hdrop] at hhead
        simpa using hhead
      rw [hdrop, hc] at hrest
      exact .inr ⟨fun hm => by simpa using List.mem_takeWhile_imp hm, rest, rfl, hrest.symm⟩
  · cases h

end Dialogue.Template
