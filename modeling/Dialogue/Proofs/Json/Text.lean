import Dialogue.Json.Reader
import Dialogue.Json.Written
import Mathlib.Tactic.SplitIfs

namespace Dialogue.Json

open Byte

def encode (cs : List Char) : List UInt8 := cs.flatMap String.utf8EncodeChar

theorem encode_nil : encode [] = [] := rfl

theorem encode_cons (c : Char) (cs : List Char) :
    encode (c :: cs) = String.utf8EncodeChar c ++ encode cs := List.flatMap_cons ..

theorem encode_append (front back : List Char) :
    encode (front ++ back) = encode front ++ encode back := List.flatMap_append ..

theorem bytesOf_ofList (cs : List Char) : bytesOf (String.ofList cs) = encode cs := by
  change (cs.flatMap String.utf8EncodeChar).toByteArray.data.toList = encode cs
  rw [List.data_toByteArray, encode]

theorem decode?_encode (cs : List Char) : decode? (encode cs) = some (String.ofList cs) := by
  have hbytes : (⟨(encode cs).toArray⟩ : ByteArray) = cs.utf8Encode := by
    rw [List.utf8Encode]
    exact ByteArray.ext (by rw [List.data_toByteArray, encode])
  have hvalid : cs.utf8Encode.IsValidUTF8 := (String.ofList cs).isValidUTF8
  rw [decode?, hbytes, String.fromUTF8?, dif_pos hvalid]
  rfl

structure IsPlain (b : UInt8) : Prop where
  quote : b ≠ quote
  backslash : b ≠ backslash
  control : ¬ b < 32

theorem IsPlain.of_le {b : UInt8} (h : 128 ≤ b) : IsPlain b where
  quote := by rintro rfl; revert h; decide
  backslash := by rintro rfl; revert h; decide
  control := UInt8.not_lt.2 (UInt8.le_trans (by decide) h)

theorem le_ofNat {n : Nat} (h : 128 ≤ n) (hn : n < 256) : 128 ≤ UInt8.ofNat n := by
  rw [UInt8.le_iff_toNat_le, UInt8.toNat_ofNat_of_lt' hn]
  exact h

theorem le_of_mem_encodeChar {c : Char} (h : 128 ≤ c.toNat) {b : UInt8}
    (hb : b ∈ String.utf8EncodeChar c) : 128 ≤ b := by
  have hn : ¬ c.val.toNat ≤ 127 := Nat.not_le.2 h
  rw [String.utf8EncodeChar, if_neg hn] at hb
  split at hb
  · simp only [List.mem_cons, List.not_mem_nil, or_false] at hb
    rcases hb with rfl | rfl <;> exact le_ofNat (by omega) (by omega)
  · split at hb
    · simp only [List.mem_cons, List.not_mem_nil, or_false] at hb
      rcases hb with rfl | rfl | rfl <;> exact le_ofNat (by omega) (by omega)
    · simp only [List.mem_cons, List.not_mem_nil, or_false] at hb
      rcases hb with rfl | rfl | rfl | rfl <;> exact le_ofNat (by omega) (by omega)

theorem encodeChar_of_lt {c : Char} (h : c.toNat < 128) :
    String.utf8EncodeChar c = [UInt8.ofNat c.toNat] := by
  have hn : c.val.toNat ≤ 127 := Nat.le_of_lt_succ h
  rw [String.utf8EncodeChar, if_pos hn]
  rfl

theorem isPlain_of_mem_encodeChar {c : Char} (hq : c ≠ '"') (hb : c ≠ '\\')
    (hc : ¬ c.toNat < 32) {b : UInt8} (hm : b ∈ String.utf8EncodeChar c) : IsPlain b := by
  by_cases h : c.toNat < 128
  · rw [encodeChar_of_lt h, List.mem_singleton] at hm
    have hn : b.toNat = c.toNat := by
      rw [hm]
      exact UInt8.toNat_ofNat_of_lt' (Nat.lt_trans h (by decide))
    have hne : ∀ d : Char, c ≠ d → b.toNat ≠ d.toNat := fun d hd he =>
      hd (Char.toNat_inj.1 (hn.symm.trans he))
    refine ⟨?_, ?_, ?_⟩
    · rintro rfl
      exact hne '"' hq rfl
    · rintro rfl
      exact hne '\\' hb rfl
    · rw [UInt8.lt_iff_toNat_lt, hn]
      exact hc
  · exact .of_le (le_of_mem_encodeChar (Nat.not_lt.1 h) hm)

theorem hex?_digitChar {n : Nat} (h : n < 16) : hex? (ofChar (Nat.digitChar n)) = some n := by
  revert n
  decide

theorem scanEscape_control {c : Char} (h : c.toNat < 32) (rest : List UInt8) :
    scanEscape (ofChar 'u' :: zero :: zero :: ofChar (Nat.digitChar (c.toNat / 16)) ::
      ofChar (Nat.digitChar (c.toNat % 16)) :: rest) = .ok (c, rest) := by
  have hzero : hex? zero = some 0 := by decide
  have hvalue : ((0 * 16 + 0) * 16 + c.toNat / 16) * 16 + c.toNat % 16 = c.toNat := by omega
  have hhex : scanHex (zero :: zero :: ofChar (Nat.digitChar (c.toNat / 16)) ::
      ofChar (Nat.digitChar (c.toNat % 16)) :: rest) = .ok (c.toNat, rest) := by
    rw [scanHex, hzero, hex?_digitChar (by omega), hex?_digitChar (by omega)]
    exact congrArg (fun n => Except.ok (n, rest)) hvalue
  have hunits : scanUnits (zero :: zero :: ofChar (Nat.digitChar (c.toNat / 16)) ::
      ofChar (Nat.digitChar (c.toNat % 16)) :: rest) = .ok (c, rest) := by
    rw [scanUnits, hhex]
    change (if 0xDC00 ≤ c.toNat ∧ c.toNat ≤ 0xDFFF then _ else
      if c.toNat < 0xD800 ∨ 0xDBFF < c.toNat then _ else _) = _
    rw [if_neg (by omega), if_pos (by omega)]
    exact congrArg (fun d => Except.ok (d, rest)) (Char.ofNat_toNat c)
  rw [scanEscape, if_pos rfl, hunits]

variable {fuel : Nat} {read rest : List UInt8}

theorem scanTextBytes_plain {bytes : List UInt8} (h : ∀ b ∈ bytes, IsPlain b)
    (hf : (bytes ++ rest).length < fuel) :
    ∃ left, rest.length < left ∧
      scanTextBytes fuel read (bytes ++ rest) =
        scanTextBytes left (bytes.reverse ++ read) rest := by
  induction bytes generalizing fuel read with
  | nil => exact ⟨fuel, hf, rfl⟩
  | cons b bs ih =>
    obtain ⟨hq, hb, hc⟩ := h b (.head _)
    cases fuel with
    | zero => cases hf
    | succ fuel =>
      obtain ⟨left, hleft, he⟩ := @ih fuel (b :: read) (fun b hm => h b (.tail _ hm))
        (Nat.lt_of_succ_lt_succ hf)
      refine ⟨left, hleft, ?_⟩
      rw [List.cons_append, scanTextBytes, if_neg hq, if_neg hb, if_neg hc, he,
        List.reverse_cons, List.append_assoc, List.singleton_append]

theorem scanTextBytes_escape {c : Char} (escape : List UInt8)
    (h : scanEscape (escape ++ rest) = .ok (c, rest))
    (hf : (backslash :: escape ++ rest).length < fuel) :
    ∃ left, rest.length < left ∧
      scanTextBytes fuel read (backslash :: escape ++ rest) =
        scanTextBytes left ((String.utf8EncodeChar c).reverse ++ read) rest := by
  cases fuel with
  | zero => cases hf
  | succ fuel =>
    refine ⟨fuel, ?_, ?_⟩
    · rw [List.cons_append, List.length_cons, List.length_append] at hf
      omega
    · rw [List.cons_append, scanTextBytes, if_neg (by decide), if_pos rfl, h]
      rfl

theorem escaped_cases (c : Char) :
    (∃ letter, encode (escaped c) = [backslash, letter] ∧ letter ≠ ofChar 'u' ∧
      escapedLetter? letter = some c) ∨
    (c.toNat < 32 ∧ encode (escaped c) = [backslash, ofChar 'u', zero, zero,
      ofChar (Nat.digitChar (c.toNat / 16)), ofChar (Nat.digitChar (c.toNat % 16))]) ∨
    encode (escaped c) = String.utf8EncodeChar c ∧ ∀ b ∈ String.utf8EncodeChar c, IsPlain b := by
  generalize he : escaped c = characters
  rw [escaped] at he
  split_ifs at he with hquote hbackslash hline hreturn htab hback hfeed hcontrol
  · subst he hquote
    exact .inl ⟨quote, rfl, by decide, rfl⟩
  · subst he hbackslash
    exact .inl ⟨backslash, rfl, by decide, rfl⟩
  · subst he hline
    exact .inl ⟨ofChar 'n', rfl, by decide, rfl⟩
  · subst he hreturn
    exact .inl ⟨ofChar 'r', rfl, by decide, rfl⟩
  · subst he htab
    exact .inl ⟨ofChar 't', rfl, by decide, rfl⟩
  · subst he hback
    exact .inl ⟨ofChar 'b', rfl, by decide, rfl⟩
  · subst he hfeed
    exact .inl ⟨ofChar 'f', rfl, by decide, rfl⟩
  · subst he
    refine .inr (.inl ⟨hcontrol, ?_⟩)
    have hdigit : ∀ n < 16,
        String.utf8EncodeChar (Nat.digitChar n) = [ofChar (Nat.digitChar n)] := by decide
    simp only [encode, List.flatMap_cons, List.flatMap_nil, List.append_nil]
    rw [hdigit _ (by omega), hdigit _ (by omega)]
    rfl
  · subst he
    refine .inr (.inr ⟨?_, fun b hm => isPlain_of_mem_encodeChar hquote hbackslash hcontrol hm⟩)
    rw [encode_cons, encode_nil, List.append_nil]

theorem scanTextBytes_escaped (c : Char) (read : List UInt8)
    (hf : (encode (escaped c) ++ rest).length < fuel) :
    ∃ left, rest.length < left ∧
      scanTextBytes fuel read (encode (escaped c) ++ rest) =
        scanTextBytes left ((String.utf8EncodeChar c).reverse ++ read) rest := by
  rcases escaped_cases c with ⟨letter, he, hu, hl⟩ | ⟨hc, he⟩ | ⟨he, hp⟩
  · rw [he] at hf ⊢
    refine scanTextBytes_escape [letter] ?_ hf
    rw [List.singleton_append, scanEscape, if_neg hu, hl]
  · rw [he] at hf ⊢
    exact scanTextBytes_escape [_, _, _, _, _] (scanEscape_control hc rest) hf
  · rw [he] at hf ⊢
    exact scanTextBytes_plain hp hf

theorem scanTextBytes_characters (cs : List Char)
    (hf : (encode (cs.flatMap escaped) ++ quote :: rest).length < fuel) :
    scanTextBytes fuel read (encode (cs.flatMap escaped) ++ quote :: rest) =
      .ok ((encode cs).reverse ++ read, rest) := by
  induction cs generalizing fuel read with
  | nil =>
    cases fuel with
    | zero => cases hf
    | succ fuel => rfl
  | cons c cs ih =>
    rw [List.flatMap_cons, encode_append, List.append_assoc] at hf ⊢
    obtain ⟨left, hleft, he⟩ := scanTextBytes_escaped c read hf
    rw [he, ih hleft, encode_cons, List.reverse_append, List.append_assoc]

theorem scanText_quoted (text : String)
    (hf : (encode (text.toList.flatMap escaped) ++ quote :: rest).length < fuel) :
    scanText fuel (encode (text.toList.flatMap escaped) ++ quote :: rest) = .ok (text, rest) := by
  have hdecode : decode? ((encode text.toList).reverse ++ []).reverse = some text := by
    rw [List.append_nil, List.reverse_reverse, decode?_encode, String.ofList_toList]
  rw [scanText, scanTextBytes_characters text.toList hf]
  dsimp only [bind, Except.bind]
  rw [hdecode]
  rfl

end Dialogue.Json
