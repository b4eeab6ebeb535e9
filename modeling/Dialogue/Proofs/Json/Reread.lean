import Dialogue.Proofs.Json.Nesting

namespace Dialogue.Json

open Byte

/-- The reader finds the value where it fits, and otherwise stops because it does not. -/
structure Finds {α : Type} (outcome : Except Stop (α × List UInt8)) (fits : Prop) (value : α)
    (rest : List UInt8) : Prop where
  found : fits → outcome = .ok (value, rest)
  stopped : ¬ fits → ∃ left, outcome = .error ⟨.tooDeep, left⟩

section

variable {α β : Type} {outcome : Except Stop (α × List UInt8)} {P Q : Prop} {a : α} {b : β}
  {left rest : List UInt8}

theorem Finds.of_eq (h : outcome = .ok (a, rest)) (hP : P) : Finds outcome P a rest :=
  ⟨fun _ => h, fun hn => absurd hP hn⟩

theorem Finds.congr (h : Finds outcome P a rest) (hPQ : P ↔ Q) : Finds outcome Q a rest :=
  ⟨fun hQ => h.found (hPQ.2 hQ), fun hn => h.stopped fun hP => hn (hPQ.1 hP)⟩

theorem Finds.bind {next : α × List UInt8 → Except Stop (β × List UInt8)}
    (h : Finds outcome P a left) (hnext : P → Finds (next (a, left)) Q b rest) :
    Finds (outcome >>= next) (P ∧ Q) b rest where
  found := by
    rintro ⟨hP, hQ⟩
    rw [h.found hP]
    exact (hnext hP).found hQ
  stopped := by
    intro hn
    by_cases hP : P
    · rw [h.found hP]
      exact (hnext hP).stopped fun hQ => hn ⟨hP, hQ⟩
    · obtain ⟨place, he⟩ := h.stopped hP
      exact ⟨place, by rw [he]; rfl⟩

theorem Finds.wrap (h : Finds outcome P a rest) (f : α → β) :
    Finds (outcome >>= fun found => .ok (f found.1, found.2)) P (f a) rest := by
  refine Finds.congr (Finds.bind h fun _ => ?_) (and_iff_left trivial)
  exact .of_eq rfl trivial

end

variable {fuel depth : Nat} {c d : UInt8} {after rest : List UInt8}

/-! ### What the reader does next -/

theorem skipBlanks_cons (h : isBlank c = false) : skipBlanks (c :: rest) = c :: rest :=
  List.dropWhile_cons_of_neg (by rw [h]; exact Bool.false_ne_true)

theorem ne_of_isDigit (hd : isDigit d = true) (hc : isDigit c = false) : d ≠ c := by
  rintro rfl
  rw [hd] at hc
  cases hc

theorem isBlank_of_isDigit (hd : isDigit d = true) : isBlank d = false := by
  simp only [isBlank, Bool.or_eq_false_iff, decide_eq_false_iff_not]
  exact ⟨⟨⟨ne_of_isDigit hd (by decide), ne_of_isDigit hd (by decide)⟩,
    ne_of_isDigit hd (by decide)⟩, ne_of_isDigit hd (by decide)⟩

theorem scanColon_colon (rest : List UInt8) : scanColon (colon :: rest) = .ok ((), rest) := by
  rw [scanColon, skipBlanks_cons (by decide)]
  exact if_pos rfl

theorem scanValue_quote (fuel depth : Nat) (rest : List UInt8) :
    scanValue (fuel + 1) depth (quote :: rest) = (do
      let (text, rest) ← scanText fuel rest
      return (.string text, rest)) := by
  rw [scanValue, skipBlanks_cons (by decide)]
  exact if_pos rfl

theorem scanValue_openArray_zero (fuel : Nat) (rest : List UInt8) :
    scanValue (fuel + 1) 0 (openArray :: rest) = .error ⟨.tooDeep, rest⟩ := by
  rw [scanValue, skipBlanks_cons (by decide)]
  rfl

theorem scanValue_closeArray (fuel depth : Nat) (rest : List UInt8) :
    scanValue (fuel + 1) (depth + 1) (openArray :: closeArray :: rest) = .ok (.array [], rest) := by
  rw [scanValue, skipBlanks_cons (by decide)]
  dsimp only
  rw [if_neg (by decide), if_pos rfl, skipBlanks_cons (by decide)]
  rfl

theorem scanValue_openArray (hb : isBlank c = false) (hc : c ≠ closeArray) :
    scanValue (fuel + 1) (depth + 1) (openArray :: c :: after) =
      (scanValue fuel depth (c :: after) >>= fun first =>
        scanItems fuel depth [first.1] first.2 >>= fun items => .ok (array items.1, items.2)) := by
  rw [scanValue, skipBlanks_cons (by decide)]
  dsimp only
  rw [if_neg (by decide), if_pos rfl, skipBlanks_cons hb]
  exact if_neg hc

theorem scanValue_openObject_zero (fuel : Nat) (rest : List UInt8) :
    scanValue (fuel + 1) 0 (openObject :: rest) = .error ⟨.tooDeep, rest⟩ := by
  rw [scanValue, skipBlanks_cons (by decide)]
  rfl

theorem scanValue_closeObject (fuel depth : Nat) (rest : List UInt8) :
    scanValue (fuel + 1) (depth + 1) (openObject :: closeObject :: rest) =
      .ok (.object [], rest) := by
  rw [scanValue, skipBlanks_cons (by decide)]
  dsimp only
  rw [if_neg (by decide), if_neg (by decide), if_pos rfl, skipBlanks_cons (by decide)]
  rfl

theorem scanValue_openObject {text : String} {tail : List UInt8}
    (h : scanText fuel after = .ok (text, colon :: tail)) :
    scanValue (fuel + 1) (depth + 1) (openObject :: quote :: after) =
      (scanValue fuel depth tail >>= fun first =>
        scanMembers fuel depth [(text, first.1)] first.2 >>= fun members =>
          .ok (object members.1, members.2)) := by
  rw [scanValue, skipBlanks_cons (by decide)]
  dsimp only
  rw [if_neg (by decide), if_neg (by decide), if_pos rfl, skipBlanks_cons (by decide)]
  dsimp only
  rw [if_neg (by decide), if_pos rfl, h]
  dsimp only [bind, Except.bind]
  rw [scanColon_colon]
  rfl

theorem scanValue_minus (fuel depth : Nat) (rest : List UInt8) :
    scanValue (fuel + 1) depth (minus :: rest) = (do
      let (spelling, rest) ← scanNumber rest
      return (.number ("-" ++ spelling), rest)) := by
  rw [scanValue, skipBlanks_cons (by decide)]
  dsimp only
  rw [if_neg (by decide), if_neg (by decide), if_neg (by decide), if_pos rfl]

theorem scanValue_digit (hd : isDigit d = true) :
    scanValue (fuel + 1) depth (d :: rest) = (do
      let (spelling, rest) ← scanNumber (d :: rest)
      return (.number spelling, rest)) := by
  rw [scanValue, skipBlanks_cons (isBlank_of_isDigit hd)]
  dsimp only
  rw [if_neg (ne_of_isDigit hd (by decide)), if_neg (ne_of_isDigit hd (by decide)),
    if_neg (ne_of_isDigit hd (by decide)), if_neg (ne_of_isDigit hd (by decide)), if_pos hd]

theorem scanItems_closeArray (fuel depth : Nat) (read : List Json) (rest : List UInt8) :
    scanItems (fuel + 1) depth read (closeArray :: rest) = .ok (read.reverse, rest) := by
  rw [scanItems, skipBlanks_cons (by decide)]
  exact if_pos rfl

theorem scanItems_comma (read : List Json) (hb : isBlank c = false) (hc : c ≠ closeArray) :
    scanItems (fuel + 1) depth read (comma :: c :: after) =
      (scanValue fuel depth (c :: after) >>= fun item =>
        scanItems fuel depth (item.1 :: read) item.2) := by
  rw [scanItems, skipBlanks_cons (by decide)]
  dsimp only
  rw [if_neg (by decide), if_pos rfl, skipBlanks_cons hb]
  exact if_neg hc

theorem scanMembers_closeObject (fuel depth : Nat) (read : Members) (rest : List UInt8) :
    scanMembers (fuel + 1) depth read (closeObject :: rest) = .ok (read, rest) := by
  rw [scanMembers, skipBlanks_cons (by decide)]
  exact if_pos rfl

theorem scanMembers_comma {text : String} {tail : List UInt8} (read : Members)
    (h : scanText fuel after = .ok (text, colon :: tail)) :
    scanMembers (fuel + 1) depth read (comma :: quote :: after) =
      (scanValue fuel depth tail >>= fun item =>
        scanMembers fuel depth (Members.put text item.1 read) item.2) := by
  rw [scanMembers, skipBlanks_cons (by decide)]
  dsimp only
  rw [if_neg (by decide), if_pos rfl, skipBlanks_cons (by decide)]
  dsimp only
  rw [if_pos rfl, h]
  dsimp only [bind, Except.bind]
  rw [scanColon_colon]

/-! ### What is written -/

theorem encode_string (text : String) (rest : List UInt8) :
    encode (Json.string text).written ++ rest =
      quote :: (encode (text.toList.flatMap escaped) ++ quote :: rest) := by
  rw [written, quoted, encode_append, encode_cons, List.append_assoc, List.append_assoc]
  rfl

theorem encode_array (x : Json) (xs : List Json) (rest : List UInt8) :
    encode (Json.array (x :: xs)).written ++ rest =
      openArray :: (encode x.written ++ (encode (writtenItems xs) ++ closeArray :: rest)) := by
  rw [written, encode_append, encode_cons, encode_append, List.append_assoc, List.append_assoc,
    List.append_assoc]
  rfl

theorem encode_item (x : Json) (xs : List Json) (rest : List UInt8) :
    encode (writtenItems (x :: xs)) ++ rest =
      comma :: (encode x.written ++ (encode (writtenItems xs) ++ rest)) := by
  rw [writtenItems, encode_append, encode_cons, List.append_assoc, List.append_assoc]
  rfl

theorem encode_object (key : String) (value : Json) (ms : Members) (rest : List UInt8) :
    encode (Json.object ((key, value) :: ms)).written ++ rest =
      openObject :: quote :: (encode (key.toList.flatMap escaped) ++ quote :: colon ::
        (encode value.written ++ (encode (writtenMembers ms) ++ closeObject :: rest))) := by
  rw [written, quoted]
  simp only [List.cons_append, List.append_assoc, encode_cons, encode_append]
  rfl

theorem encode_member (key : String) (value : Json) (ms : Members) (rest : List UInt8) :
    encode (writtenMembers ((key, value) :: ms)) ++ rest =
      comma :: quote :: (encode (key.toList.flatMap escaped) ++ quote :: colon ::
        (encode value.written ++ (encode (writtenMembers ms) ++ rest))) := by
  rw [writtenMembers, quoted]
  simp only [List.cons_append, List.append_assoc, encode_cons, encode_append]
  rfl

theorem encode_numeral {spelling : String} (h : IsNumeral spelling) :
    ∃ bytes, IsUnsigned bytes ∧ (spelling = spell bytes ∧ encode spelling.toList = bytes ∨
      spelling = "-" ++ spell bytes ∧ encode spelling.toList = minus :: bytes) := by
  cases h with
  | @unsigned bytes h => exact ⟨bytes, h, .inl ⟨rfl, encode_spell h⟩⟩
  | @negative bytes h =>
    refine ⟨bytes, h, .inr ⟨rfl, ?_⟩⟩
    rw [String.toList_append, encode_append, encode_spell h]
    rfl

theorem IsUnsigned.exists_digit {bytes : List UInt8} (h : IsUnsigned bytes) :
    ∃ d ds, bytes = d :: ds ∧ isDigit d = true := by
  obtain ⟨hw, -, -⟩ := h
  cases hw with
  | zero => exact ⟨_, _, rfl, by decide⟩
  | digits _ hd => exact ⟨_, _, rfl, hd _ (.head _)⟩

theorem exists_encode_written {value : Json} (h : Legible value) :
    ∃ b bs, encode value.written = b :: bs ∧ isBlank b = false ∧ b ≠ closeArray := by
  cases value with
  | null => exact ⟨_, _, rfl, by decide, by decide⟩
  | bool b => cases b <;> exact ⟨_, _, rfl, by decide, by decide⟩
  | number spelling =>
    obtain ⟨bytes, hb, ⟨-, he⟩ | ⟨-, he⟩⟩ := encode_numeral h
    · obtain ⟨d, ds, rfl, hd⟩ := hb.exists_digit
      exact ⟨d, ds, he, isBlank_of_isDigit hd, ne_of_isDigit hd (by decide)⟩
    · exact ⟨_, _, he, by decide, by decide⟩
  | string text => exact ⟨_, _, rfl, by decide, by decide⟩
  | array xs => cases xs <;> exact ⟨_, _, rfl, by decide, by decide⟩
  | object ms =>
    cases ms with
    | nil => exact ⟨_, _, rfl, by decide, by decide⟩
    | cons m ms => exact ⟨_, _, rfl, by decide, by decide⟩

theorem delimited_items (xs : List Json) (rest : List UInt8) :
    Delimited (encode (writtenItems xs) ++ closeArray :: rest) := by
  cases xs with
  | nil => exact delimited_closeArray rest
  | cons x xs =>
    rw [encode_item]
    exact delimited_comma _

theorem delimited_members (ms : Members) (rest : List UInt8) :
    Delimited (encode (writtenMembers ms) ++ closeObject :: rest) := by
  cases ms with
  | nil => exact delimited_closeObject rest
  | cons m ms =>
    rw [encode_member]
    exact delimited_comma _

/-! ### Reading it -/

theorem scanValue_numeral {spelling : String} (h : IsNumeral spelling) (hr : Delimited rest)
    (hf : (encode spelling.toList ++ rest).length < fuel) :
    scanValue fuel depth (encode spelling.toList ++ rest) = .ok (.number spelling, rest) := by
  cases fuel with
  | zero => cases hf
  | succ fuel =>
    obtain ⟨bytes, hb, ⟨rfl, he⟩ | ⟨rfl, he⟩⟩ := encode_numeral h
    · obtain ⟨d, ds, hds, hd⟩ := hb.exists_digit
      have hscan := scanNumber_unsigned hb hr
      rw [hds, List.cons_append] at hscan
      rw [he, hds, List.cons_append, scanValue_digit hd, hscan, ← hds]
      rfl
    · rw [he, List.cons_append, scanValue_minus, scanNumber_unsigned hb hr]
      rfl

mutual

theorem finds_value : ∀ (value : Json) (fuel depth : Nat) {rest : List UInt8},
    Legible value → Delimited rest → (encode value.written ++ rest).length < fuel →
    Finds (scanValue fuel depth (encode value.written ++ rest)) (value.nesting ≤ depth) value rest
  | .null, fuel + 1, _, _, _, _, _ => .of_eq rfl (Nat.zero_le _)
  | .bool true, fuel + 1, _, _, _, _, _ => .of_eq rfl (Nat.zero_le _)
  | .bool false, fuel + 1, _, _, _, _, _ => .of_eq rfl (Nat.zero_le _)
  | .number spelling, fuel + 1, _, rest, hl, hr, hf =>
    .of_eq (scanValue_numeral hl hr hf) (Nat.zero_le _)
  | .string text, fuel + 1, _, rest, _, _, hf => by
    rw [encode_string] at hf ⊢
    refine .of_eq ?_ (Nat.zero_le _)
    rw [scanValue_quote, scanText_quoted text (Nat.lt_of_succ_lt_succ hf)]
    rfl
  | .array [], fuel + 1, 0, rest, _, _, _ =>
    ⟨fun h => absurd h (by simp [nesting]), fun _ => ⟨_, scanValue_openArray_zero ..⟩⟩
  | .array [], fuel + 1, depth + 1, rest, _, _, _ =>
    .of_eq (scanValue_closeArray ..) (by simp [nesting, nestingItems])
  | .array (x :: xs), fuel + 1, 0, rest, _, _, _ => by
    rw [encode_array]
    exact ⟨fun h => absurd h (by simp [nesting]), fun _ => ⟨_, scanValue_openArray_zero ..⟩⟩
  | .array (x :: xs), fuel + 1, depth + 1, rest, hl, hr, hf => by
    rw [encode_array] at hf ⊢
    obtain ⟨b, bs, he, hb, hc⟩ := exists_encode_written hl.1
    simp only [List.length_cons, List.length_append] at hf
    have hx := finds_value x fuel depth hl.1 (delimited_items xs rest)
      (by simp only [List.length_cons, List.length_append]; omega)
    have hxs := finds_items xs fuel depth rest [x] hl.2
      (by simp only [List.length_cons, List.length_append]; omega)
    rw [he, List.cons_append] at hx ⊢
    rw [scanValue_openArray hb hc]
    exact (Finds.bind hx fun _ => hxs.wrap array).congr
      (by rw [nesting, nestingItems, Nat.succ_le_succ_iff, Nat.max_le])
  | .object [], fuel + 1, 0, rest, _, _, _ =>
    ⟨fun h => absurd h (by simp [nesting]), fun _ => ⟨_, scanValue_openObject_zero ..⟩⟩
  | .object [], fuel + 1, depth + 1, rest, _, _, _ =>
    .of_eq (scanValue_closeObject ..) (by simp [nesting, nestingMembers])
  | .object ((key, value) :: ms), fuel + 1, 0, rest, _, _, _ => by
    rw [encode_object]
    exact ⟨fun h => absurd h (by simp [nesting]), fun _ => ⟨_, scanValue_openObject_zero ..⟩⟩
  | .object ((key, value) :: ms), fuel + 1, depth + 1, rest, hl, hr, hf => by
    rw [encode_object] at hf ⊢
    simp only [List.length_cons, List.length_append] at hf
    have hv := finds_value value fuel depth hl.2.1 (delimited_members ms rest)
      (by simp only [List.length_cons, List.length_append]; omega)
    have hms := finds_members ms fuel depth rest [(key, value)] hl.2.2 hl.1
      (by simp only [List.length_cons, List.length_append]; omega)
    rw [scanValue_openObject
      (scanText_quoted key (by simp only [List.length_cons, List.length_append]; omega))]
    exact (Finds.bind hv fun _ => hms.wrap object).congr
      (by rw [nesting, nestingMembers, Nat.succ_le_succ_iff, Nat.max_le])

theorem finds_items : ∀ (xs : List Json) (fuel depth : Nat) (rest : List UInt8)
    (read : List Json),
    LegibleItems xs → (encode (writtenItems xs) ++ closeArray :: rest).length < fuel →
    Finds (scanItems fuel depth read (encode (writtenItems xs) ++ closeArray :: rest))
      (nestingItems xs ≤ depth) (read.reverse ++ xs) rest
  | [], fuel + 1, _, _, read, _, _ => by
    rw [List.append_nil]
    exact .of_eq (scanItems_closeArray ..) (Nat.zero_le _)
  | x :: xs, fuel + 1, depth, rest, read, hl, hf => by
    rw [encode_item] at hf ⊢
    simp only [List.length_cons, List.length_append] at hf
    obtain ⟨b, bs, he, hb, hc⟩ := exists_encode_written hl.1
    have hx := finds_value x fuel depth hl.1 (delimited_items xs rest)
      (by simp only [List.length_cons, List.length_append]; omega)
    have hxs := finds_items xs fuel depth rest (x :: read) hl.2
      (by simp only [List.length_cons, List.length_append]; omega)
    rw [he, List.cons_append] at hx ⊢
    rw [scanItems_comma read hb hc]
    rw [List.reverse_cons, List.append_assoc, List.singleton_append] at hxs
    exact (Finds.bind hx fun _ => hxs).congr (by rw [nestingItems, Nat.max_le])

theorem finds_members : ∀ (ms : Members) (fuel depth : Nat) (rest : List UInt8) (read : Members),
    LegibleMembers ms → ((read ++ ms).map Prod.fst).Nodup →
    (encode (writtenMembers ms) ++ closeObject :: rest).length < fuel →
    Finds (scanMembers fuel depth read (encode (writtenMembers ms) ++ closeObject :: rest))
      (nestingMembers ms ≤ depth) (read ++ ms) rest
  | [], fuel + 1, _, _, read, _, _, _ => by
    rw [List.append_nil]
    exact .of_eq (scanMembers_closeObject ..) (Nat.zero_le _)
  | (key, value) :: ms, fuel + 1, depth, rest, read, hl, hk, hf => by
    rw [encode_member] at hf ⊢
    simp only [List.length_cons, List.length_append] at hf
    have hnew : key ∉ read.map Prod.fst := by
      rw [List.map_append, List.map_cons] at hk
      exact fun hm => (List.nodup_append.1 hk).2.2 key hm key (.head _) rfl
    have hv := finds_value value fuel depth hl.1 (delimited_members ms rest)
      (by simp only [List.length_cons, List.length_append]; omega)
    have hms := finds_members ms fuel depth rest (read ++ [(key, value)]) hl.2
      (by rwa [List.append_assoc, List.singleton_append])
      (by simp only [List.length_cons, List.length_append]; omega)
    rw [List.append_assoc, List.singleton_append, ← Members.put_of_not_mem hnew] at hms
    rw [scanMembers_comma read
      (scanText_quoted key (by simp only [List.length_cons, List.length_append]; omega))]
    exact (Finds.bind hv fun _ => hms).congr (by rw [nestingMembers, Nat.max_le])

end

theorem finds_compact {value : Json} (h : Legible value) :
    Finds (scanValue ((encode value.written).length + 1) depthLimit (encode value.written))
      (value.nesting ≤ depthLimit) value [] := by
  have hfinds := finds_value value ((encode value.written).length + 1) depthLimit h delimited_nil
    (by rw [List.append_nil]; exact Nat.lt_succ_self _)
  rwa [List.append_nil] at hfinds

theorem readText_compact_eq (value : Json) :
    readText value.compact = read (encode value.written) := by
  rw [readText, compact, bytesOf_ofList]

theorem readText_compact {value : Json} (h : Legible value) (hn : value.nesting ≤ depthLimit) :
    readText value.compact = .ok value := by
  have hs : scanDocument (encode value.written) = .ok value := by
    rw [scanDocument, (finds_compact h).found hn]
    rfl
  rw [readText_compact_eq, read, hs]

theorem readText_compact_of_lt {value : Json} (h : Legible value)
    (hn : depthLimit < value.nesting) :
    ∃ position, readText value.compact = .error ⟨.tooDeep, position⟩ := by
  obtain ⟨left, he⟩ := (finds_compact h).stopped (Nat.not_le.2 hn)
  have hs : scanDocument (encode value.written) = .error ⟨.tooDeep, left⟩ := by
    rw [scanDocument, he]
    rfl
  rw [readText_compact_eq, read, hs]
  exact ⟨_, rfl⟩

end Dialogue.Json
