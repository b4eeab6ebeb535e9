import Dialogue.Proofs.Template.Quotes

/-!
Placeholders as one pattern.  In it a quote, a colon, a hyphen and the default are optional, each by
itself, and what is optional or repeated takes all that it can; where the rest of the pattern then
does not match, it gives some of it back.  The scanner finds what the pattern matches: it never has
to give anything back.
-/

namespace Dialogue.Template

inductive Pattern where
  | char (p : Char → Bool)
  | many (p : Char → Bool)
  | optional (inner : Pattern)
  | group (number : Nat) (inner : Pattern)
  | seq (first second : Pattern)

abbrev Captures := List (Nat × List Char)

namespace Pattern

variable {β : Type}

def matchMany (p : Char → Bool) (next : List Char → Option β) : List Char → Option β
  | [] => next []
  | c :: rest => if p c then (matchMany p next rest).or (next (c :: rest)) else next (c :: rest)

/-- Tries the ways to match a beginning of the text, the preferred one first, until what stands
behind it will do. -/
def match? : Pattern → List Char → (Captures → List Char → Option β) → Option β
  | .char _, [], _ => none
  | .char p, c :: rest, next => if p c then next [] rest else none
  | .many p, text, next => matchMany p (next []) text
  | .optional inner, text, next => (inner.match? text next).or (next [] text)
  | .group number inner, text, next =>
    inner.match? text fun captures rest =>
      next ((number, text.take (text.length - rest.length)) :: captures) rest
  | .seq first second, text, next =>
    first.match? text fun captures rest =>
      second.match? rest fun more rest => next (captures ++ more) rest

variable {p : Char → Bool} {text rest : List Char} {c : Char}

theorem matchMany_of_isSome {next : List Char → Option β} (h : (next (text.dropWhile p)).isSome) :
    matchMany p next text = next (text.dropWhile p) := by
  induction text with
  | nil => rfl
  | cons c rest ih =>
    rw [matchMany]
    by_cases hc : p c = true
    · rw [List.dropWhile_cons_of_pos hc] at h ⊢
      rw [if_pos hc, ih h, Option.or_of_isSome h]
    · rw [List.dropWhile_cons_of_neg hc, if_neg hc]

theorem matchMany_eq_none {next : List Char → Option β}
    (h : ∀ rest, rest <:+ text → next rest = none) : matchMany p next text = none := by
  induction text with
  | nil => exact h [] List.suffix_rfl
  | cons c rest ih =>
    have hself := h (c :: rest) List.suffix_rfl
    have hrest := ih fun behind hs => h behind (hs.trans (List.suffix_cons c rest))
    rw [matchMany, hself, hrest]
    split <;> rfl

theorem match?_eq_none (pattern : Pattern) {next : Captures → List Char → Option β}
    (h : ∀ captures rest, rest <:+ text → next captures rest = none) :
    pattern.match? text next = none := by
  induction pattern generalizing text next with
  | char p =>
    cases text with
    | nil => rfl
    | cons c rest =>
      rw [match?, h [] rest (List.suffix_cons c rest)]
      split <;> rfl
  | many p => exact matchMany_eq_none (h [])
  | optional inner ih => rw [match?, ih h, h [] text List.suffix_rfl, Option.or_none]
  | group number inner ih => exact ih fun captures rest hr => h _ rest hr
  | seq first second ihf ihs =>
    exact ihf fun captures rest hr => ihs fun more behind hb => h _ behind (hb.trans hr)

section

variable {next : Captures → List Char → Option β}

theorem char_match (h : p c = true) : (char p).match? (c :: rest) next = next [] rest :=
  if_pos h

theorem char_match_of_head? (h : ∀ c ∈ text.head?, p c = false) :
    (char p).match? text next = none := by
  cases text with
  | nil => rfl
  | cons c rest => exact if_neg (by simp [h c rfl])

theorem seq_match (first second : Pattern) : (seq first second).match? text next =
    first.match? text fun captures rest =>
      second.match? rest fun more rest => next (captures ++ more) rest := rfl

def dropOne (p : Char → Bool) : List Char → List Char
  | [] => []
  | c :: rest => if p c then rest else c :: rest

theorem optional_char_match (p : Char → Bool) (text : List Char)
    (next : Captures → List Char → Option β) :
    (optional (char p)).match? text next = (next [] (dropOne p text)).or (next [] text) := by
  cases text with
  | nil => simp [match?, dropOne]
  | cons c rest => by_cases hc : p c = true <;> simp [match?, dropOne, hc]

theorem take_length_sub (word rest : List Char) :
    (word ++ rest).take ((word ++ rest).length - rest.length) = word := by
  simp

theorem group_many_match {number : Nat} {word : List Char} (hw : ∀ d ∈ word, p d = true)
    (hc : p c = false) (h : (next [(number, word)] (c :: rest)).isSome) :
    (group number (many p)).match? (word ++ c :: rest) next =
      next [(number, word)] (c :: rest) := by
  obtain ⟨-, hdrop⟩ := takeWhile_until hw hc rest
  have hall := take_length_sub word (c :: rest)
  rw [match?, match?, matchMany_of_isSome, hdrop, hall]
  rw [hdrop, hall]
  exact h

theorem group_some_match {number : Nat} (hne : text.takeWhile p ≠ [])
    (h : (next [(number, text.takeWhile p)] (text.dropWhile p)).isSome) :
    (group number (seq (char p) (many p))).match? text next =
      next [(number, text.takeWhile p)] (text.dropWhile p) := by
  cases text with
  | nil => exact absurd rfl hne
  | cons c rest =>
    have hc : p c = true := by
      by_contra hc
      exact hne (List.takeWhile_cons_of_neg hc)
    have hall := take_length_sub (c :: rest.takeWhile p) (rest.dropWhile p)
    rw [List.cons_append, List.takeWhile_append_dropWhile] at hall
    rw [List.takeWhile_cons_of_pos hc, List.dropWhile_cons_of_pos hc] at h ⊢
    rw [match?, seq_match, char_match hc, match?, matchMany_of_isSome, hall]
    · rfl
    · rw [hall]
      exact h

end

def quote : Pattern := .optional (.char (IsQuote ·))

def name : Pattern := .group 1 (.seq (.char isNameChar) (.many isNameChar))

def default : Pattern :=
  .optional (.seq (.optional (.char (· = ':'))) (.seq (.optional (.char (· = '-')))
    (.group 2 (.many (· ≠ '\x7d')))))

def closing : Pattern := .seq (.char (· = '\x7d')) quote

def opened : Pattern :=
  .seq (.char (· = '$')) (.seq (.char (· = '\x7b')) (.seq name (.seq default closing)))

def placeholder : Pattern := .seq quote opened

def read (captures : Captures) : Placeholder :=
  ⟨String.ofList ((captures.lookup 1).getD []), String.ofList ((captures.lookup 2).getD [])⟩

theorem dropOne_hyphen (text : List Char) : dropOne (· = '-') text = dropHyphen text := by
  unfold dropHyphen
  split
  · rfl
  · next h =>
    cases text with
    | nil => rfl
    | cons c rest =>
      have hc : c ≠ '-' := fun hc => h rest (hc ▸ rfl)
      simp [dropOne, hc]

section

variable {next : Captures → List Char → Option β} {word after : List Char}

theorem quote_match : quote.match? text next =
    (next [] (dropQuote text)).or (next [] text) := by
  rw [quote, optional_char_match]
  cases text with
  | nil => rfl
  | cons c rest => simp [dropOne, dropQuote_cons]

theorem closing_match (hn : ∀ captures rest, (next captures rest).isSome) (rest : List Char) :
    closing.match? ('\x7d' :: rest) next = next [] (dropQuote rest) := by
  rw [closing, seq_match, char_match (by simp), quote_match]
  exact Option.or_of_isSome (hn ..)

theorem closing_match_of_not_mem (h : '\x7d' ∉ text) : closing.match? text next = none := by
  rw [closing, seq_match, char_match_of_head?]
  intro c hc
  refine decide_eq_false fun he => h ?_
  exact he ▸ List.mem_of_mem_head? hc

theorem or_eq_of_eq {first second value : Option β} (h : first = value) (hv : value.isSome) :
    first.or second = value := by
  rw [h, Option.or_of_isSome hv]

theorem default_match (hw : '\x7d' ∉ word)
    (h : dropHyphen (dropOne (· = ':') text) = word ++ '\x7d' :: after)
    (hn : (next [(2, word)] ('\x7d' :: after)).isSome) :
    default.match? text next = next [(2, word)] ('\x7d' :: after) := by
  have hgroup : (group 2 (many (· ≠ '\x7d'))).match? (word ++ '\x7d' :: after) next =
      next [(2, word)] ('\x7d' :: after) :=
    group_many_match (fun d hd => decide_eq_true fun he => hw (he ▸ hd)) rfl hn
  have hhyphen : (seq (optional (char (· = '-'))) (group 2 (many (· ≠ '\x7d')))).match?
      (dropOne (· = ':') text) next = next [(2, word)] ('\x7d' :: after) := by
    rw [seq_match, optional_char_match, dropOne_hyphen, h]
    exact or_eq_of_eq hgroup hn
  have hcolon : (seq (optional (char (· = ':'))) (seq (optional (char (· = '-')))
      (group 2 (many (· ≠ '\x7d'))))).match? text next = next [(2, word)] ('\x7d' :: after) := by
    rw [seq_match, optional_char_match]
    exact or_eq_of_eq hhyphen hn
  exact or_eq_of_eq hcolon hn

theorem ending_match (h : default? text = some (word, after))
    (hn : ∀ captures rest, (next captures rest).isSome) :
    (seq default closing).match? text next = next [(2, word)] (dropQuote after) := by
  have hclosing :
      closing.match? ('\x7d' :: after) (fun more rest => next ([(2, word)] ++ more) rest) =
        next [(2, word)] (dropQuote after) := closing_match (fun _ _ => hn ..) after
  rw [seq_match, default_match, hclosing]
  · obtain ⟨rfl, rfl⟩ | ⟨hw, -⟩ := default?_eq_some h
    · exact List.not_mem_nil
    · exact hw
  · obtain ⟨rfl, rfl⟩ | ⟨-, rest, rfl, hh⟩ := default?_eq_some h
    · rfl
    · exact hh
  · rw [hclosing]
    exact hn ..

theorem ending_match_of_not_mem (h : '\x7d' ∉ text) :
    (seq default closing).match? text next = none := by
  rw [seq_match]
  exact match?_eq_none _ fun captures rest hr =>
    closing_match_of_not_mem fun hm => h (hr.subset hm)

theorem not_mem_of_default? (ht : ∀ c ∈ text.head?, isNameChar c = false)
    (h : default? text = none) : '\x7d' ∉ text := by
  unfold default? at h
  split at h
  · cases h
  · next rest =>
    split at h
    · next hdrop =>
      have hall := List.dropWhile_eq_nil_iff.1 hdrop
      have hrest : '\x7d' ∉ dropHyphen rest := fun hm => by simpa using hall _ hm
      obtain he | ⟨he, -⟩ := eq_of_dropHyphen rest
      · rw [he]
        simpa using hrest
      · rw [he]
        simpa using hrest
    · cases h
  · next hbracket hcolon =>
    cases text with
    | nil => exact List.not_mem_nil
    | cons c rest =>
      have hc : c = '\x7d' ∨ c = ':' := by simpa [isNameChar, or_iff_not_imp_left] using ht c rfl
      obtain rfl | rfl := hc
      · exact absurd rfl (hbracket rest)
      · exact absurd rfl (hcolon rest)

end

theorem opened_match_of_not_isPrefix {next : Captures → List Char → Option β}
    (h : ¬ opening <+: text) : opened.match? text next = none := by
  rw [opened, seq_match]
  match text with
  | [] => rfl
  | [c] =>
    by_cases hc : c = '$'
    · rw [char_match (by simpa using hc)]
      rfl
    · exact char_match_of_head? (by simpa using hc)
  | c :: d :: rest =>
    by_cases hc : c = '$'
    · have hd : d ≠ '\x7b' := fun hd => h ⟨rest, by rw [hc, hd]; rfl⟩
      rw [char_match (by simpa using hc), seq_match]
      exact char_match_of_head? (by simpa using hd)
    · exact char_match_of_head? (by simpa using hc)

theorem name_match_of_takeWhile {next : Captures → List Char → Option β}
    (h : text.takeWhile isNameChar = []) : name.match? text next = none := by
  rw [name, match?, seq_match]
  apply char_match_of_head?
  intro c hc
  obtain ⟨rest, rfl⟩ := List.head?_eq_some_iff.1 hc
  by_contra hn
  rw [List.takeWhile_cons_of_pos (by simpa using hn)] at h
  cases h

theorem not_mem_of_default?_dropWhile (h : default? (text.dropWhile isNameChar) = none) :
    '\x7d' ∉ text := by
  have hrest : '\x7d' ∉ text.dropWhile isNameChar := by
    refine not_mem_of_default? (fun c hc => ?_) h
    have hhead := List.head?_dropWhile_not isNameChar text
    rw [Option.mem_def.1 hc] at hhead
    simpa using hhead
  have hname : '\x7d' ∉ text.takeWhile isNameChar := fun hm =>
    (isNameChar_iff.1 (List.mem_takeWhile_imp hm)).1 rfl
  rw [← List.takeWhile_append_dropWhile (p := isNameChar) (l := text), List.mem_append]
  exact not_or.2 ⟨hname, hrest⟩

theorem named_match (text : List Char) :
    (seq name (seq default closing)).match? text (fun captures rest => some (read captures, rest)) =
      (placeholder? ('$' :: '\x7b' :: text)).map fun found => (found.1, dropQuote found.2) := by
  have hread : placeholder? ('$' :: '\x7b' :: text) =
      if (text.takeWhile isNameChar).isEmpty then none
      else (default? (text.dropWhile isNameChar)).map fun found =>
        (⟨String.ofList (text.takeWhile isNameChar), String.ofList found.1⟩, found.2) := rfl
  rw [hread, seq_match]
  by_cases hne : text.takeWhile isNameChar = []
  · rw [name_match_of_takeWhile hne, hne]
    rfl
  rw [if_neg (by simpa using hne)]
  cases hd : default? (text.dropWhile isNameChar) with
  | none =>
    -- No shorter name will do either: no bracket closes the placeholder.
    exact match?_eq_none _ fun captures rest hr =>
      ending_match_of_not_mem fun hm => not_mem_of_default?_dropWhile hd (hr.subset hm)
  | some found =>
    have hending : ∀ captures, (seq default closing).match? (text.dropWhile isNameChar)
        (fun more rest => some (read (captures ++ more), rest)) =
          some (read (captures ++ [(2, found.1)]), dropQuote found.2) := fun captures =>
      ending_match hd fun _ _ => rfl
    rw [name, group_some_match hne, hending]
    · rfl
    · rw [hending]
      rfl

theorem opened_match (text : List Char) :
    opened.match? text (fun captures rest => some (read captures, rest)) =
      (placeholder? text).map fun found => (found.1, dropQuote found.2) := by
  by_cases ho : opening <+: text
  · obtain ⟨rest, rfl⟩ := ho
    exact named_match rest
  · rw [opened_match_of_not_isPrefix ho, placeholder?_of_not_isPrefix ho]
    rfl

/-- The scanner finds what the pattern matches. -/
theorem quoted?_eq_match (text : List Char) :
    quoted? text =
      placeholder.match? text fun captures rest => some (read captures, rest) := by
  rw [placeholder, seq_match, quote_match, quoted?]
  simp only [List.nil_append, opened_match]
  by_cases hq : ∀ c ∈ text.head?, ¬ IsQuote c
  · rw [dropQuote_of_head? hq, Option.or_self]
  · -- In front of a quote no placeholder begins, so the quote is not given back.
    push Not at hq
    obtain ⟨c, hc, hq⟩ := hq
    obtain ⟨rest, rfl⟩ := List.head?_eq_some_iff.1 hc
    rw [placeholder?_of_isQuote hq, Option.map_none, Option.or_none]

end Pattern

end Dialogue.Template
