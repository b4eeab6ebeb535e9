import Dialogue.Proofs.Except
import Dialogue.Proofs.Json.Text
import Mathlib.Data.List.TakeWhile

namespace Dialogue.Json

open Byte

inductive IsWhole : List UInt8 → Prop where
  | zero : IsWhole [zero]
  | digits {d : UInt8} {ds : List UInt8} (hz : d ≠ Byte.zero)
      (h : ∀ b ∈ d :: ds, isDigit b = true) : IsWhole (d :: ds)

inductive IsFraction : List UInt8 → Prop where
  | absent : IsFraction []
  | present {d : UInt8} {ds : List UInt8} (h : ∀ b ∈ d :: ds, isDigit b = true) :
      IsFraction (point :: d :: ds)

inductive IsExponent : List UInt8 → Prop where
  | absent : IsExponent []
  | present {sign d : UInt8} {ds : List UInt8} (hs : sign = plus ∨ sign = minus)
      (h : ∀ b ∈ d :: ds, isDigit b = true) : IsExponent (ofChar 'e' :: sign :: d :: ds)

inductive IsUnsigned : List UInt8 → Prop where
  | parts {whole fraction exponent : List UInt8} (hw : IsWhole whole) (hf : IsFraction fraction)
      (he : IsExponent exponent) : IsUnsigned (whole ++ fraction ++ exponent)

def spell (bytes : List UInt8) : String := String.ofList (bytes.map toChar)

inductive IsNumeral : String → Prop where
  | unsigned {bytes : List UInt8} (h : IsUnsigned bytes) : IsNumeral (spell bytes)
  | negative {bytes : List UInt8} (h : IsUnsigned bytes) : IsNumeral ("-" ++ spell bytes)

def Delimited (rest : List UInt8) : Prop :=
  ∀ b ∈ rest.head?, b = comma ∨ b = closeArray ∨ b = closeObject

def NoDigit (rest : List UInt8) : Prop := ∀ b ∈ rest.head?, isDigit b = false

variable {bytes digits whole fraction exponent input rest : List UInt8}

theorem delimited_nil : Delimited [] := nofun

theorem delimited_comma (rest : List UInt8) : Delimited (comma :: rest) := by
  rintro _ ⟨⟩
  exact .inl rfl

theorem delimited_closeArray (rest : List UInt8) : Delimited (closeArray :: rest) := by
  rintro _ ⟨⟩
  exact .inr (.inl rfl)

theorem delimited_closeObject (rest : List UInt8) : Delimited (closeObject :: rest) := by
  rintro _ ⟨⟩
  exact .inr (.inr rfl)

theorem Delimited.noDigit (h : Delimited rest) : NoDigit rest := by
  intro b hb
  rcases h b hb with rfl | rfl | rfl <;> decide

theorem IsExponent.noDigit (h : IsExponent exponent) (hr : Delimited rest) :
    NoDigit (exponent ++ rest) := by
  cases h with
  | absent => exact hr.noDigit
  | present =>
    rintro _ ⟨⟩
    decide

theorem IsFraction.noDigit (h : IsFraction fraction) (hr : NoDigit rest) :
    NoDigit (fraction ++ rest) := by
  cases h with
  | absent => exact hr
  | present =>
    rintro _ ⟨⟩
    decide

theorem any_head?_of_noDigit (h : NoDigit rest) : rest.head?.any isDigit = false := by
  cases rest with
  | nil => rfl
  | cons b bs => exact h b rfl

theorem takeWhile_digits (h : ∀ b ∈ digits, isDigit b = true) (hr : NoDigit rest) :
    (digits ++ rest).takeWhile isDigit = digits ∧ (digits ++ rest).dropWhile isDigit = rest := by
  rw [List.takeWhile_append_of_pos h, List.dropWhile_append_of_pos h]
  cases rest with
  | nil => exact ⟨List.append_nil _, rfl⟩
  | cons b bs =>
    have hb := hr b rfl
    rw [List.takeWhile_cons_of_neg (by rw [hb]; exact Bool.false_ne_true), List.append_nil,
      List.dropWhile_cons_of_neg (by rw [hb]; exact Bool.false_ne_true)]
    exact ⟨rfl, rfl⟩

theorem scanInteger_whole (h : IsWhole whole) (hr : NoDigit rest) :
    scanInteger (whole ++ rest) = .ok (whole, rest) := by
  cases h with
  | zero =>
    rw [List.singleton_append, scanInteger, if_pos rfl, any_head?_of_noDigit hr,
      if_neg Bool.false_ne_true]
  | @digits d ds hz hd =>
    obtain ⟨htake, hdrop⟩ := takeWhile_digits (fun b hb => hd b (.tail _ hb)) hr
    rw [List.cons_append, scanInteger, if_neg hz, if_pos (hd d (.head _)), htake, hdrop]

theorem scanFraction_fraction (h : IsFraction fraction) (he : IsExponent exponent)
    (hr : Delimited rest) :
    scanFraction (fraction ++ (exponent ++ rest)) = .ok (fraction, exponent ++ rest) := by
  cases h with
  | absent =>
    rw [List.nil_append]
    cases he with
    | absent =>
      cases rest with
      | nil => rfl
      | cons b bs =>
        have hne : b ≠ point := by rcases hr b rfl with rfl | rfl | rfl <;> decide
        rw [List.nil_append, scanFraction, if_pos hne]
    | present => rw [List.cons_append, scanFraction, if_pos (by decide)]
  | @present d ds hd =>
    obtain ⟨htake, hdrop⟩ := takeWhile_digits hd (he.noDigit hr)
    have hhead : (d :: ds ++ (exponent ++ rest)).head?.any isDigit = true := hd d (.head _)
    rw [List.cons_append, scanFraction, if_neg fun h => h rfl, if_pos hhead, htake, hdrop]

theorem scanExponent_exponent (h : IsExponent exponent) (hr : Delimited rest) :
    scanExponent (exponent ++ rest) = .ok (exponent, rest) := by
  cases h with
  | absent =>
    cases rest with
    | nil => rfl
    | cons b bs =>
      have hne : (b ≠ ofChar 'e' && b ≠ ofChar 'E') = true := by
        rcases hr b rfl with rfl | rfl | rfl <;> decide
      rw [List.nil_append, scanExponent, if_pos hne]
  | @present sign d ds hs hd =>
    obtain ⟨htake, hdrop⟩ := takeWhile_digits hd hr.noDigit
    have hhead : (d :: ds ++ rest).head?.any isDigit = true := hd d (.head _)
    have hsign : scanSign (sign :: (d :: ds ++ rest)) = (sign, d :: ds ++ rest) := by
      rw [scanSign, if_pos (by rcases hs with rfl | rfl <;> decide)]
    rw [List.cons_append, scanExponent, if_neg (by decide), List.cons_append, hsign]
    dsimp only
    rw [if_pos hhead, htake, hdrop]

theorem scanNumber_unsigned (h : IsUnsigned bytes) (hr : Delimited rest) :
    scanNumber (bytes ++ rest) = .ok (spell bytes, rest) := by
  obtain ⟨hw, hf, he⟩ := h
  rw [List.append_assoc, List.append_assoc, scanNumber,
    scanInteger_whole hw (hf.noDigit (he.noDigit hr))]
  change (scanFraction _ >>= _) = _
  rw [scanFraction_fraction hf he hr]
  change (scanExponent _ >>= _) = _
  rw [scanExponent_exponent he hr]
  rfl

theorem exists_cons_of_any_head? (h : rest.head?.any isDigit = true) :
    ∃ d ds, rest = d :: ds ∧ isDigit d = true := by
  cases rest with
  | nil => cases h
  | cons d ds => exact ⟨d, ds, rfl, h⟩

theorem isDigit_of_mem_takeWhile {d : UInt8} (hd : isDigit d = true) :
    ∀ b ∈ d :: rest.takeWhile isDigit, isDigit b = true := by
  intro b hb
  cases hb with
  | head => exact hd
  | tail _ hb => exact List.mem_takeWhile_imp hb

theorem isWhole_of_scanInteger (h : scanInteger input = .ok (whole, rest)) : IsWhole whole := by
  cases input with
  | nil => cases h
  | cons b bs =>
    rw [scanInteger] at h
    split at h
    · next hz =>
      split at h
      · cases h
      · cases h
        rw [hz]
        exact .zero
    · next hz =>
      split at h
      · next hd =>
        cases h
        exact .digits hz (isDigit_of_mem_takeWhile hd)
      · cases h

theorem isFraction_of_scanFraction (h : scanFraction input = .ok (fraction, rest)) :
    IsFraction fraction := by
  cases input with
  | nil =>
    cases h
    exact .absent
  | cons b bs =>
    rw [scanFraction] at h
    split at h
    · cases h
      exact .absent
    · split at h
      · next hhead =>
        obtain ⟨d, ds, rfl, hd⟩ := exists_cons_of_any_head? hhead
        cases h
        rw [List.takeWhile_cons_of_pos hd]
        exact .present (isDigit_of_mem_takeWhile hd)
      · split at h <;> cases h

theorem sign_scanSign (input : List UInt8) :
    (scanSign input).1 = plus ∨ (scanSign input).1 = minus := by
  cases input with
  | nil => exact .inl rfl
  | cons b bs =>
    rw [scanSign]
    split
    · next h => simpa using h
    · exact .inl rfl

theorem isExponent_of_scanExponent (h : scanExponent input = .ok (exponent, rest)) :
    IsExponent exponent := by
  cases input with
  | nil =>
    cases h
    exact .absent
  | cons b bs =>
    rw [scanExponent] at h
    split at h
    · cases h
      exact .absent
    · have hs := sign_scanSign bs
      generalize scanSign bs = signed at h hs
      obtain ⟨sign, digits⟩ := signed
      dsimp only at h hs
      split at h
      · next hhead =>
        obtain ⟨d, ds, rfl, hd⟩ := exists_cons_of_any_head? hhead
        cases h
        rw [List.takeWhile_cons_of_pos hd]
        exact .present hs (isDigit_of_mem_takeWhile hd)
      · split at h <;> cases h

theorem exists_unsigned_of_scanNumber {spelling : String}
    (h : scanNumber input = .ok (spelling, rest)) :
    ∃ bytes, IsUnsigned bytes ∧ spelling = spell bytes := by
  obtain ⟨⟨whole, input⟩, hw, h⟩ := bind_eq_ok h
  obtain ⟨⟨fraction, input⟩, hf, h⟩ := bind_eq_ok h
  obtain ⟨⟨exponent, input⟩, he, h⟩ := bind_eq_ok h
  cases h
  exact ⟨_, .parts (isWhole_of_scanInteger hw) (isFraction_of_scanFraction hf)
    (isExponent_of_scanExponent he), rfl⟩

theorem lt_of_isDigit {b : UInt8} (h : isDigit b = true) : b < 128 := by
  rw [isDigit, Bool.and_eq_true, decide_eq_true_eq, decide_eq_true_eq] at h
  exact UInt8.lt_of_le_of_lt h.2 (by decide)

theorem IsWhole.lt (h : IsWhole whole) : ∀ b ∈ whole, b < 128 := by
  cases h with
  | zero => exact List.forall_mem_singleton.2 (by decide)
  | digits _ hd => exact fun b hb => lt_of_isDigit (hd b hb)

theorem IsFraction.lt (h : IsFraction fraction) : ∀ b ∈ fraction, b < 128 := by
  cases h with
  | absent => nofun
  | present hd => exact List.forall_mem_cons.2 ⟨by decide, fun b hb => lt_of_isDigit (hd b hb)⟩

theorem IsExponent.lt (h : IsExponent exponent) : ∀ b ∈ exponent, b < 128 := by
  cases h with
  | absent => nofun
  | present hs hd =>
    refine List.forall_mem_cons.2 ⟨by decide, List.forall_mem_cons.2
      ⟨?_, fun b hb => lt_of_isDigit (hd b hb)⟩⟩
    rcases hs with rfl | rfl <;> decide

theorem IsUnsigned.lt (h : IsUnsigned bytes) : ∀ b ∈ bytes, b < 128 := by
  obtain ⟨hw, hf, he⟩ := h
  intro b hb
  rcases List.mem_append.1 hb with hb | hb
  · rcases List.mem_append.1 hb with hb | hb
    · exact hw.lt b hb
    · exact hf.lt b hb
  · exact he.lt b hb

theorem encodeChar_toChar {b : UInt8} (h : b < 128) : String.utf8EncodeChar (toChar b) = [b] := by
  have hlt : b.toNat < 128 := UInt8.lt_iff_toNat_lt.1 h
  have hn : (toChar b).toNat = b.toNat := by
    have hvalid : b.toNat.isValidChar := .inl (by omega)
    rw [toChar, Char.ofNat, dif_pos hvalid]
    rfl
  rw [encodeChar_of_lt (by omega), hn, UInt8.ofNat_toNat]

theorem encode_spell (h : IsUnsigned bytes) : encode (spell bytes).toList = bytes := by
  have hlt := h.lt
  rw [spell, String.toList_ofList]
  generalize bytes = bs at hlt
  induction bs with
  | nil => rfl
  | cons b rest ih =>
    rw [List.map_cons, encode_cons, encodeChar_toChar (hlt b (.head _)),
      ih fun d hd => hlt d (.tail _ hd), List.singleton_append]

end Dialogue.Json
