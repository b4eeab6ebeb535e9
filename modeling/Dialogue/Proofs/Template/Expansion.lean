import Dialogue.Proofs.Template.Placeholder
import Mathlib.Data.List.Chain
import Mathlib.Data.List.Infix

namespace Dialogue.Template

def IsQuote (c : Char) : Prop := c = '"' ∨ c = '\''

instance : DecidablePred IsQuote := fun c => inferInstanceAs (Decidable (c = '"' ∨ c = '\''))

def opening : List Char := ['$', '\x7b']

variable {environment : Environment} {text rest after written : List Char} {p : Placeholder}
  {c : Char}

theorem dropQuote_cons (c : Char) (rest : List Char) :
    dropQuote (c :: rest) = if IsQuote c then rest else c :: rest := by
  rw [dropQuote]
  exact if_congr (by simp [IsQuote]) rfl rfl

theorem dropQuote_of_head? (h : ∀ c ∈ text.head?, ¬ IsQuote c) : dropQuote text = text := by
  cases text with
  | nil => rfl
  | cons c rest => rw [dropQuote_cons, if_neg (h c rfl)]

theorem isSuffix_dropQuote (text : List Char) : dropQuote text <:+ text := by
  cases text with
  | nil => exact List.suffix_rfl
  | cons c rest =>
    rw [dropQuote_cons]
    split
    · exact List.suffix_cons c rest
    · exact List.suffix_rfl

theorem placeholder?_of_not_isPrefix (h : ¬ opening <+: text) : placeholder? text = none := by
  unfold placeholder?
  split
  · next rest => exact absurd ⟨rest, rfl⟩ h
  · rfl

theorem placeholder?_of_isQuote (h : IsQuote c) (rest : List Char) :
    placeholder? (c :: rest) = none := by
  apply placeholder?_of_not_isPrefix
  obtain rfl | rfl := h <;> simp [opening]

theorem not_isInfix_of_not_mem (h : '$' ∉ text ∨ '\x7b' ∉ text) : ¬ opening <:+: text := by
  intro hi
  obtain hn | hn := h
  · exact hn (hi.subset (.head _))
  · exact hn (hi.subset (.tail _ (.head _)))

theorem placeholder?_append (hne : text ≠ []) (ht : ¬ opening <:+: text)
    (hr : rest.head? ≠ some '\x7b') : placeholder? (text ++ rest) = none := by
  apply placeholder?_of_not_isPrefix
  intro hp
  match text, hne with
  | [c], _ =>
    cases rest with
    | nil => simp [opening] at hp
    | cons d rest =>
      obtain ⟨-, rfl⟩ : '$' = c ∧ '\x7b' = d := by simpa [opening] using hp
      exact hr rfl
  | c :: d :: others, _ =>
    refine ht (List.IsPrefix.isInfix ?_)
    simpa [opening] using hp

theorem fill_of_quoted? (h : quoted? text = some (p, after)) :
    fill environment text = p.value environment ++ fill environment after := by
  rw [fill]
  split
  · next h' =>
    rw [h] at h'
    cases h'
    rfl
  · next h' =>
    rw [h] at h'
    cases h'

theorem fill_cons_of_quoted? (h : quoted? (c :: rest) = none) :
    fill environment (c :: rest) = c :: fill environment rest := by
  rw [fill]
  split
  · next h' =>
    rw [h] at h'
    cases h'
  · rfl

@[simp] theorem fill_nil : fill environment [] = [] := by
  rw [fill]
  split
  · next h => cases h
  · rfl

theorem fill_placeholder (h : Written p written) (rest : List Char) :
    fill environment (written ++ rest) =
      p.value environment ++ fill environment (dropQuote rest) := by
  have hq : dropQuote (written ++ rest) = written ++ rest := by
    apply dropQuote_of_head?
    cases h <;> simp [IsQuote]
  apply fill_of_quoted?
  rw [quoted?, hq, placeholder?_of_written h]
  rfl

theorem fill_quote_placeholder (hc : IsQuote c) (h : Written p written) (rest : List Char) :
    fill environment (c :: (written ++ rest)) =
      p.value environment ++ fill environment (dropQuote rest) := by
  apply fill_of_quoted?
  rw [quoted?, dropQuote_cons, if_pos hc, placeholder?_of_written h]
  rfl

theorem fill_append (ht : ¬ opening <:+: text) (hr : rest.head? ≠ some '\x7b')
    (hq : placeholder? rest = none ∨ ∀ c ∈ text.getLast?, ¬ IsQuote c) :
    fill environment (text ++ rest) = text ++ fill environment rest := by
  induction text with
  | nil => rfl
  | cons c text ih =>
    have ht' : ¬ opening <:+: text := fun h => ht (h.trans (List.suffix_cons c text).isInfix)
    have hnone : quoted? (c :: (text ++ rest)) = none := by
      rw [quoted?, Option.map_eq_none_iff]
      by_cases hc : IsQuote c
      · rw [dropQuote_cons, if_pos hc]
        cases text with
        | nil => exact hq.resolve_right fun h => h c rfl hc
        | cons => exact placeholder?_append nofun ht' hr
      · rw [dropQuote_cons, if_neg hc]
        have hne : c :: text ≠ [] := nofun
        exact placeholder?_append hne ht hr
    have hq' : placeholder? rest = none ∨ ∀ d ∈ text.getLast?, ¬ IsQuote d := by
      refine hq.imp_right fun h d hd => h d ?_
      cases text with
      | nil => cases hd
      | cons => simpa using hd
    rw [List.cons_append, fill_cons_of_quoted? hnone, ih ht' hq', List.cons_append]

theorem fill_of_not_isInfix (h : ¬ opening <:+: text) : fill environment text = text := by
  calc
    fill environment text = fill environment (text ++ []) := by rw [List.append_nil]
    _ = text ++ fill environment [] := fill_append h nofun (.inl rfl)
    _ = text := by simp

inductive Segment where
  | literal (text : List Char) (h : ¬ opening <:+: text)
  | placeholder (p : Placeholder) (written : List Char) (h : Written p written)

namespace Segment

def source : Segment → List Char
  | .literal text _ => text
  | .placeholder _ written _ => written

def value (environment : Environment) : Segment → List Char
  | .literal text _ => text
  | .placeholder p _ _ =>
    match environment p.name with
    | some value => value.toList
    | none => p.default.toList

/-- A piece may stand in front of another: two texts would be one, and no quote touches a
placeholder. -/
def MayPrecede : Segment → Segment → Prop
  | .literal .., .literal .. => False
  | .literal text _, .placeholder .. => ∀ c ∈ text.getLast?, ¬ IsQuote c
  | .placeholder .., .literal text _ => ∀ c ∈ text.head?, ¬ IsQuote c
  | .placeholder .., .placeholder .. => True

theorem value_placeholder (h : Written p written) :
    (placeholder p written h).value environment = p.value environment := by
  rw [value, Placeholder.value]
  cases environment p.name <;> rfl

variable {s : Segment} {segments : List Segment}

theorem head?_text_placeholder (h : Written p written) (rest : List Char) :
    (written ++ rest).head? = some '$' := by
  cases h <;> rfl

theorem head?_behind_literal {h : ¬ opening <:+: text}
    (hs : (literal text h :: segments).IsChain MayPrecede) :
    segments = [] ∨ (segments.flatMap Segment.source).head? = some '$' ∧
      ∀ c ∈ text.getLast?, ¬ IsQuote c := by
  cases hs with
  | singleton => exact .inl rfl
  | @cons_cons _ next rest hnext _ =>
    cases next with
    | literal => cases hnext
    | placeholder p written hw =>
      rw [List.flatMap_cons]
      exact .inr ⟨head?_text_placeholder hw _, hnext⟩

theorem head?_behind_placeholder {h : Written p written}
    (hs : (placeholder p written h :: segments).IsChain MayPrecede) :
    ∀ c ∈ (segments.flatMap Segment.source).head?, ¬ IsQuote c := by
  cases hs with
  | singleton => nofun
  | @cons_cons _ next rest hnext hrest =>
    rw [List.flatMap_cons]
    cases next with
    | placeholder p written hw =>
      rw [Segment.source, head?_text_placeholder hw]
      simp [IsQuote]
    | literal text ht =>
      cases text with
      | cons c text => exact hnext
      | nil =>
        obtain rfl | ⟨hd, -⟩ := head?_behind_literal hrest
        · nofun
        · simp [Segment.source, hd, IsQuote]

end Segment

variable {segments : List Segment}

theorem fill_segments (h : segments.IsChain Segment.MayPrecede) :
    fill environment (segments.flatMap Segment.source) =
      segments.flatMap (Segment.value environment) := by
  induction segments with
  | nil => exact fill_nil
  | cons s rest ih =>
    rw [List.flatMap_cons, List.flatMap_cons, ← ih h.of_cons]
    cases s with
    | literal text ht =>
      obtain rfl | ⟨hd, hq⟩ := Segment.head?_behind_literal h
      · exact fill_append ht nofun (.inl rfl)
      · exact fill_append ht (by simp [hd]) (.inr hq)
    | placeholder p written hw =>
      rw [Segment.source, fill_placeholder hw, Segment.value_placeholder,
        dropQuote_of_head? (Segment.head?_behind_placeholder h)]

/-- A template becomes what its pieces stand for, and only the variables it names matter. -/
theorem expand_template (environment : Environment) (h : segments.IsChain Segment.MayPrecede) :
    expand environment (String.ofList (segments.flatMap Segment.source)) =
        String.ofList (segments.flatMap (Segment.value environment)) ∧
      ∀ other : Environment,
        (∀ p written hw, Segment.placeholder p written hw ∈ segments →
          other p.name = environment p.name) →
        expand other (String.ofList (segments.flatMap Segment.source)) =
          expand environment (String.ofList (segments.flatMap Segment.source)) := by
  have hfill : ∀ environment, expand environment (String.ofList (segments.flatMap Segment.source)) =
      String.ofList (segments.flatMap (Segment.value environment)) := fun environment => by
    rw [expand, String.toList_ofList, fill_segments h]
  refine ⟨hfill environment, fun other ho => ?_⟩
  rw [hfill other, hfill environment]
  refine congrArg String.ofList (List.flatMap_congr fun s hs => ?_)
  cases s with
  | literal => rfl
  | placeholder p written hw => simp only [Segment.value, ho p written hw hs]

def mixed : List Segment :=
  [.literal ['"', 'p', '"', ':', ' ', '$'] (not_isInfix_of_not_mem (.inr (by decide))),
    .placeholder _ _
      (@Written.hyphen ['A'] [':', '$', '\x7b', '\n'] ⟨List.cons_ne_nil _ _, by simp⟩ (by decide)),
    .placeholder _ _ (@Written.bare ['B'] ⟨List.cons_ne_nil _ _, by simp⟩),
    .literal [' ', '\'', 'q', '\''] (not_isInfix_of_not_mem (.inl (by decide)))]

theorem expand_mixed :
    mixed.IsChain Segment.MayPrecede ∧
      expand (.ofList [("B", "$\x7bA\x7d")]) "\"p\": $$\x7bA:-:$\x7b\n\x7d$\x7bB\x7d 'q'" =
        "\"p\": $:$\x7b\n$\x7bA\x7d 'q'" ∧
      expand (.ofList [("B", "$\x7bA\x7d"), ("p", "q")])
          "\"p\": $$\x7bA:-:$\x7b\n\x7d$\x7bB\x7d 'q'" =
        expand (.ofList [("B", "$\x7bA\x7d")]) "\"p\": $$\x7bA:-:$\x7b\n\x7d$\x7bB\x7d 'q'" := by
  have h : mixed.IsChain Segment.MayPrecede := by
    simp [mixed, Segment.MayPrecede, IsQuote]
  obtain ⟨hvalue, hother⟩ := expand_template (.ofList [("B", "$\x7bA\x7d")]) h
  refine ⟨h, hvalue, hother _ fun p written hw hs => ?_⟩
  simp only [mixed, List.mem_cons, reduceCtorEq, Segment.placeholder.injEq, false_or,
    List.not_mem_nil, or_false] at hs
  obtain ⟨rfl, -⟩ | ⟨rfl, -⟩ := hs <;> rfl

end Dialogue.Template
