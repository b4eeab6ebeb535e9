import Dialogue.Proofs.Template.Expansion

namespace Dialogue.Template

def withoutLastQuote (text : List Char) : List Char := (dropQuote text.reverse).reverse

variable {environment : Environment} {text before after rest written : List Char}
  {p : Placeholder} {c : Char}

theorem isPrefix_withoutLastQuote (text : List Char) : withoutLastQuote text <+: text := by
  rw [withoutLastQuote, ← List.reverse_suffix, List.reverse_reverse]
  exact isSuffix_dropQuote text.reverse

theorem dropQuote_eq_self_iff : dropQuote text = text ↔ ∀ c ∈ text.head?, ¬ IsQuote c := by
  refine ⟨fun h c hc hq => ?_, dropQuote_of_head?⟩
  obtain ⟨rest, rfl⟩ := List.head?_eq_some_iff.1 hc
  rw [dropQuote_cons, if_pos hq] at h
  exact absurd (congrArg List.length h) (by simp)

theorem withoutLastQuote_eq_self_iff :
    withoutLastQuote text = text ↔ ∀ c ∈ text.getLast?, ¬ IsQuote c := by
  rw [withoutLastQuote, ← List.head?_reverse, ← dropQuote_eq_self_iff,
    List.reverse_eq_iff]

theorem withoutLastQuote_concat (h : IsQuote c) (text : List Char) :
    withoutLastQuote (text ++ [c]) = text := by
  rw [withoutLastQuote, List.reverse_concat, dropQuote_cons, if_pos h, List.reverse_reverse]

theorem fill_around (hw : Written p written) (hb : ¬ opening <:+: before) (rest : List Char) :
    fill environment (before ++ (written ++ rest)) =
      withoutLastQuote before ++ (p.value environment ++ fill environment (dropQuote rest)) := by
  by_cases hq : ∀ c ∈ before.getLast?, ¬ IsQuote c
  · have hr : (written ++ rest).head? ≠ some '\x7b' := by
      rw [Segment.head?_text_placeholder hw]
      decide
    rw [withoutLastQuote_eq_self_iff.2 hq, fill_append hb hr (.inr hq), fill_placeholder hw]
  · push Not at hq
    obtain ⟨c, hc, hq⟩ := hq
    obtain ⟨front, rfl⟩ := List.getLast?_eq_some_iff.1 hc
    have hf : ¬ opening <:+: front := fun h => hb (h.trans (List.prefix_append ..).isInfix)
    have hr : (c :: (written ++ rest)).head? ≠ some '\x7b' := by
      obtain rfl | rfl := hq <;> simp
    rw [withoutLastQuote_concat hq, List.append_assoc, List.singleton_append,
      fill_append hf hr (.inl (placeholder?_of_isQuote hq _)), fill_quote_placeholder hq hw]

/-- Quotes that touch a placeholder are dropped one by one: the texts around it are kept as they are
exactly if no quote touches it on either side. -/
theorem expand_around (environment : Environment) (hw : Written p written)
    (hb : ¬ opening <:+: before) (ha : ¬ opening <:+: after) :
    expand environment (String.ofList (before ++ written ++ after)) =
        String.ofList (withoutLastQuote before ++ p.value environment ++ dropQuote after) ∧
      (expand environment (String.ofList (before ++ written ++ after)) =
          String.ofList (before ++ p.value environment ++ after) ↔
        (∀ c ∈ before.getLast?, ¬ IsQuote c) ∧ ∀ c ∈ after.head?, ¬ IsQuote c) := by
  have hd : ¬ opening <:+: dropQuote after :=
    fun h => ha (h.trans (isSuffix_dropQuote after).isInfix)
  have hexpand : expand environment (String.ofList (before ++ written ++ after)) =
      String.ofList (withoutLastQuote before ++ p.value environment ++ dropQuote after) := by
    rw [expand, String.toList_ofList, List.append_assoc, fill_around hw hb, fill_of_not_isInfix hd,
      List.append_assoc]
  refine ⟨hexpand, ?_⟩
  rw [hexpand, String.ofList_inj, ← withoutLastQuote_eq_self_iff, ← dropQuote_eq_self_iff]
  constructor
  · intro h
    have hlength := congrArg List.length h
    simp only [List.length_append] at hlength
    have hfront := (isPrefix_withoutLastQuote before).length_le
    have hback := (isSuffix_dropQuote after).length_le
    exact ⟨(isPrefix_withoutLastQuote before).eq_of_length (by omega),
      (isSuffix_dropQuote after).eq_of_length (by omega)⟩
  · rintro ⟨hfront, hback⟩
    rw [hfront, hback]

theorem expand_unlikeQuotes :
    expand (.ofList [("A", "a")]) "'$\x7bA\x7d\"x" = "ax" ∧
      expand (.ofList [("A", "a")]) "'$\x7bA\x7d\"x" ≠ "'a\"x" := by
  have hw : Written ⟨String.ofList ['A'], ""⟩ ('$' :: '\x7b' :: ['A'] ++ ['\x7d']) :=
    .bare ⟨List.cons_ne_nil _ _, by simp⟩
  have hb : ¬ opening <:+: ['\''] := not_isInfix_of_not_mem (.inl (by decide))
  have ha : ¬ opening <:+: ['"', 'x'] := not_isInfix_of_not_mem (.inl (by decide))
  have h := expand_around (.ofList [("A", "a")]) hw hb ha
  exact ⟨h.1, fun hkept => (h.2.1 hkept).1 '\'' rfl (.inr rfl)⟩

theorem not_kept_halfQuoted :
    expand (.ofList [("A", "a")]) "\"$\x7bA\x7d-x\"" ≠ "\"a-x\"" := by
  decide +kernel

end Dialogue.Template
