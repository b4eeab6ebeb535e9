import Dialogue.Environment

/-!
Placeholders in a text.  A placeholder is a dollar sign and a variable's name in curly brackets,
with a default behind a colon or a colon and a hyphen if one is wanted.  It stands for the value of
the variable, or for the default of a variable that has none.

A quote that touches a placeholder on either side belongs to it and is dropped with it.  What is
put in is not looked at again.
-/

namespace Dialogue.Template

structure Placeholder where
  name : String
  default : String
  deriving DecidableEq, Repr

def Placeholder.value (p : Placeholder) (environment : Environment) : List Char :=
  ((environment p.name).getD p.default).toList

def isNameChar (c : Char) : Bool := c ≠ '\x7d' && c ≠ ':'

def dropHyphen : List Char → List Char
  | '-' :: rest => rest
  | text => text

def default? : List Char → Option (List Char × List Char)
  | '\x7d' :: rest => some ([], rest)
  | ':' :: rest =>
    match (dropHyphen rest).dropWhile (· ≠ '\x7d') with
    | [] => none
    | _ :: after => some ((dropHyphen rest).takeWhile (· ≠ '\x7d'), after)
  | _ => none

def placeholder? : List Char → Option (Placeholder × List Char)
  | '$' :: '\x7b' :: rest =>
    let name := rest.takeWhile isNameChar
    if name.isEmpty then none
    else (default? (rest.dropWhile isNameChar)).map fun (default, after) =>
      (⟨String.ofList name, String.ofList default⟩, after)
  | _ => none

def dropQuote : List Char → List Char
  | c :: rest => if c = '"' || c = '\'' then rest else c :: rest
  | [] => []

/-- The same, with the quotes that touch the placeholder. -/
def quoted? (text : List Char) : Option (Placeholder × List Char) :=
  (placeholder? (dropQuote text)).map fun (p, after) => (p, dropQuote after)

theorem length_dropHyphen_le (text : List Char) : (dropHyphen text).length ≤ text.length := by
  unfold dropHyphen; split <;> simp

theorem length_dropQuote_le (text : List Char) : (dropQuote text).length ≤ text.length := by
  unfold dropQuote; split
  · split <;> simp
  · simp

theorem length_dropWhile_le (p : Char → Bool) (text : List Char) :
    (text.dropWhile p).length ≤ text.length :=
  (List.dropWhile_sublist p).length_le

theorem length_default? {text default after : List Char}
    (h : default? text = some (default, after)) : after.length < text.length := by
  unfold default? at h
  split at h
  · simp_all
  · next rest =>
    split at h
    · simp at h
    · next _ after' hd =>
      simp only [Option.some.injEq, Prod.mk.injEq] at h
      have h₁ := length_dropWhile_le (· ≠ '\x7d') (dropHyphen rest)
      have h₂ := length_dropHyphen_le rest
      rw [hd] at h₁
      simp only [List.length_cons] at h₁ ⊢
      rw [← h.2]
      omega
  · simp at h

theorem length_placeholder? {text after : List Char} {p : Placeholder}
    (h : placeholder? text = some (p, after)) : after.length < text.length := by
  unfold placeholder? at h
  split at h
  · next rest =>
    dsimp only at h
    split at h
    · simp at h
    · obtain ⟨⟨default, after'⟩, hd, he⟩ := Option.map_eq_some_iff.1 h
      have h₁ := length_default? hd
      have h₂ := length_dropWhile_le isNameChar rest
      simp only [Prod.mk.injEq] at he
      rw [← he.2]
      simp only [List.length_cons]
      omega
  · simp at h

theorem length_quoted? {text after : List Char} {p : Placeholder}
    (h : quoted? text = some (p, after)) : after.length < text.length := by
  obtain ⟨⟨q, after'⟩, hq, he⟩ := Option.map_eq_some_iff.1 h
  have h₁ := length_placeholder? hq
  have h₂ := length_dropQuote_le text
  have h₃ := length_dropQuote_le after'
  simp only [Prod.mk.injEq] at he
  rw [← he.2]
  omega

def fill (environment : Environment) (text : List Char) : List Char :=
  match _h : quoted? text with
  | some (p, after) => p.value environment ++ fill environment after
  | none =>
    match text with
    | [] => []
    | c :: rest => c :: fill environment rest
termination_by text.length
decreasing_by
  · exact length_quoted? _h
  · simp

def expand (environment : Environment) (text : String) : String :=
  String.ofList (fill environment text.toList)

def names (text : List Char) : List String :=
  match _h : quoted? text with
  | some (p, after) => p.name :: names after
  | none =>
    match text with
    | [] => []
    | _ :: rest => names rest
termination_by text.length
decreasing_by
  · exact length_quoted? _h
  · simp

end Dialogue.Template
