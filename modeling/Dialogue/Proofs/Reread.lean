import Dialogue.Proofs.Body.Nesting
import Dialogue.Proofs.Json.Reader
import Dialogue.Proofs.Json.Reread
import Dialogue.Proofs.Stable

/-!
Reading what was sent.  A document that is sent is read as itself by the reader that read the
request, as long as the envelope does not nest it one level too deep.
-/

namespace Dialogue

open Json (FitsIn depthLimit)

variable {depth : Nat} {payload document : Json}

/-- What is relied on in a reader.  Its values are such as a document holds, none of them nested
past the limit; it reads back what is written of a value, and refuses what is written of one past
the limit. -/
structure Json.Reader.Faithful (read : Json.Reader) : Prop where
  fitsIn {input : List UInt8} {value : Json} (h : read input = .ok value) : FitsIn depthLimit value
  reads_back {value : Json} (h : FitsIn depthLimit value) :
    read (Json.bytesOf value.compact) = .ok value
  refuses {value : Json} (hl : Json.Legible value) (hn : depthLimit < value.nesting) :
    ∃ position, read (Json.bytesOf value.compact) = .error ⟨.tooDeep, position⟩

theorem Json.faithful_read : Json.Reader.Faithful Json.read where
  fitsIn := Json.fitsIn_of_read
  reads_back h := Json.readText_compact h.legible h.nesting
  refuses := Json.readText_compact_of_lt

namespace Normalizer

variable (n : Normalizer) (requestId model : String) (stream : Bool) (ids : IdSource)

theorem fitsIn_of_gemini (ht : n.target = .gemini) (hp : FitsIn (depth + 7) payload)
    (h : (n.normalize (n.context requestId model stream) ids payload).result = .ok document) :
    FitsIn (depth + 7) document := by
  cases hc : payload.field? "contents" with
  | none =>
    obtain ⟨body, rfl | rfl, -, -, rfl⟩ :=
      exists_settled_of_no_contents n requestId model stream ht hc h
    · exact Body.fitsIn_withSettings hp n.threshold
    · exact Body.fitsIn_withSettings (Json.fitsIn_object_nil _) n.threshold
  | some contents =>
    have hctx : (n.context requestId model stream).target = .gemini := ht
    have hhas : payload.has ["contents"] = true := by rw [has_contents, hc, Option.isSome_some]
    rw [eq_delivered_of_result n requestId model stream ids h (.inr hhas),
      Context.sealed_of_gemini hctx, Context.bodyOf_of_gemini hctx]
    exact Body.fitsIn_delivered hp _ ids

theorem fitsIn_of_antigravity (ht : n.target = .antigravity)
    (hp : FitsIn (depth + 7) (Body.withoutModel payload))
    (h : (n.normalize (n.context requestId model stream) ids payload).result = .ok document) :
    FitsIn (depth + 8) document := by
  have hctx : (n.context requestId model stream).target = .antigravity := ht
  rw [eq_delivered_of_result n requestId model stream ids h (.inl ht),
    Context.bodyOf_of_antigravity hctx]
  exact Context.fitsIn_sealed (Body.fitsIn_delivered hp _ ids) _

theorem nesting_of_antigravity {key : String} {value : Json} (ht : n.target = .antigravity)
    (hkey : key ∉ ["contents", "safetySettings", "model", "tools", "generationConfig",
      "system_instruction", "systemInstruction"])
    (hv : payload.field? key = some value)
    (h : (n.normalize (n.context requestId model stream) ids payload).result = .ok document) :
    value.nesting + 2 ≤ document.nesting := by
  have hctx : (n.context requestId model stream).target = .antigravity := ht
  have hsent := eq_delivered_of_result n requestId model stream ids h (.inl ht)
  rw [Context.sealed_of_antigravity hctx] at hsent
  generalize hbody : Body.delivered (n.context requestId model stream) ids
    ((n.context requestId model stream).bodyOf payload) = body at hsent
  have hrequest : document.field? "request" = some body := by
    rw [hsent]
    rfl
  have hsame : body.field? key = some value := by
    simp only [List.mem_cons, List.not_mem_nil, or_false, not_or] at hkey
    obtain ⟨hcontents, hsettings, hmodel, hrenamed⟩ := hkey
    rw [← hbody, Body.field?_delivered_of_ne hcontents hsettings,
      Body.field?_renamed_of_ne (by simpa using hrenamed), Context.field?_bodyOf hmodel, hv]
  have hvalue := Json.nesting_lt_of_field? hsame
  have hdocument := Json.nesting_lt_of_field? hrequest
  omega

theorem fitsIn_or_past_limit (hp : FitsIn depthLimit payload)
    (h : (n.normalize (n.context requestId model stream) ids payload).result = .ok document) :
    FitsIn depthLimit document ∨
      n.target = .antigravity ∧ (Body.withoutModel payload).nesting = depthLimit ∧
        Json.Legible document ∧ document.nesting = depthLimit + 1 := by
  -- The limit leaves more than the seven levels that a body may be given.
  cases ht : n.target with
  | gemini => exact .inl (fitsIn_of_gemini n requestId model stream ids ht hp h)
  | antigravity =>
    have hbody := Body.fitsIn_withoutModel hp
    rcases hbody.nesting.eq_or_lt with heq | hlt
    · have hdocument : FitsIn (depthLimit + 1) document :=
        fitsIn_of_antigravity n requestId model stream ids ht hbody h
      rcases hdocument.nesting.eq_or_lt with hn | hn
      · exact .inr ⟨rfl, heq, hdocument.legible, hn⟩
      · exact .inl ⟨hdocument.legible, Nat.le_of_lt_succ hn⟩
    · exact .inl (fitsIn_of_antigravity n requestId model stream ids ht
        ⟨hbody.legible, Nat.le_of_lt_succ hlt⟩ h)

/-- The bytes that are sent for a request are those of a document that is read from them again.  The
one exception is a document past the limit, which only the envelope can make, and only around a body
at the limit. -/
theorem answer_reread {read : Json.Reader} (hread : read.Faithful) {request : Request}
    (h : (n.answer requestId ids request read).result = .ok document) :
    ∃ payload, read request.body = .ok payload ∧
      (n.normalize (n.context requestId request.model request.stream) ids payload).result =
        .ok document ∧
      (document.nesting ≤ depthLimit ∧ read (Json.bytesOf document.compact) = .ok document ∨
        document.nesting = depthLimit + 1 ∧
          (∃ position, read (Json.bytesOf document.compact) = .error ⟨.tooDeep, position⟩) ∧
          n.target = .antigravity ∧ (Body.withoutModel payload).nesting = depthLimit) := by
  obtain ⟨payload, hp, hd⟩ := exists_payload_of_answer n requestId ids h
  refine ⟨payload, hp, hd, ?_⟩
  rcases fitsIn_or_past_limit n requestId _ _ ids (hread.fitsIn hp) hd with
    hfits | ⟨ht, hbody, hlegible, hn⟩
  · exact .inl ⟨hfits.nesting, hread.reads_back hfits⟩
  · exact .inr ⟨hn, hread.refuses hlegible (by rw [hn]; exact Nat.lt_succ_self _), ht, hbody⟩

end Normalizer

def Json.nested : Nat → Json
  | 0 => .array []
  | depth + 1 => .array [nested depth]

theorem Json.fitsIn_nested (depth : Nat) : FitsIn (depth + 1) (nested depth) := by
  induction depth with
  | zero => exact fitsIn_array.2 (List.forall_mem_nil _)
  | succ depth ih => exact fitsIn_array.2 (List.forall_mem_singleton.2 ih)

theorem Json.nesting_nested (depth : Nat) : (nested depth).nesting = depth + 1 := by
  induction depth with
  | zero => rfl
  | succ depth ih => rw [nested, nesting, nestingItems, ih, nestingItems, Nat.max_zero]

def Body.deep (depth : Nat) : Json :=
  .object [("contents", .array []), ("extra", .nested depth)]

theorem Body.fitsIn_deep (depth : Nat) : FitsIn (depth + 2) (deep depth) :=
  Json.fitsIn_object.2 ⟨(by decide : ["contents", "extra"].Nodup),
    List.forall_mem_cons.2 ⟨Json.fitsIn_array.2 (List.forall_mem_nil _),
      List.forall_mem_singleton.2 (Json.fitsIn_nested depth)⟩⟩

def Request.deep (depth : Nat) : Request where
  model := "gemini"
  body := Json.bytesOf (Body.deep depth).compact

theorem Normalizer.exists_answer_deep (n : Normalizer) (depth : Nat) (h : depth + 2 ≤ depthLimit) :
    ∃ document, (n.answer "" .counting (.deep depth) Json.read).result = .ok document ∧
      (n.normalize (n.context "" "gemini" false) .counting (Body.deep depth)).result =
        .ok document := by
  have hbody := Body.fitsIn_deep depth
  have hread : Json.read (Request.deep depth).body = .ok (Body.deep depth) :=
    Json.faithful_read.reads_back ⟨hbody.legible, hbody.nesting.trans h⟩
  have hc : (Body.deep depth).field? "contents" = some (.array []) := rfl
  have hresult := (normalize_yields n "" "gemini" false .counting hc fun _ => ⟨[], rfl⟩).result
  refine ⟨_, ?_, hresult⟩
  rw [result_answer_of_ok n "" .counting hread]
  exact mapError_eq_ok_iff.2 hresult

theorem Normalizer.answer_reread_deep :
    Json.Reader.Faithful Json.read ∧
      ∃ document, (answer { target := .gemini } "" .counting (.deep 125) Json.read).result =
          .ok document ∧
        document.nesting ≤ depthLimit ∧
        Json.read (Json.bytesOf document.compact) = .ok document := by
  obtain ⟨document, hd, -⟩ := exists_answer_deep { target := .gemini } 125 (by decide)
  obtain ⟨payload, -, -, hread | ⟨-, -, ht, -⟩⟩ :=
    answer_reread { target := .gemini } "" .counting Json.faithful_read hd
  · exact ⟨Json.faithful_read, document, hd, hread⟩
  · cases ht

theorem Normalizer.answer_too_deep :
    Json.Reader.Faithful Json.read ∧
      ∃ document position,
        (answer { target := .antigravity } "" .counting (.deep 125) Json.read).result =
          .ok document ∧
        Json.read (Json.bytesOf document.compact) = .error ⟨.tooDeep, position⟩ := by
  obtain ⟨document, hd, hresult⟩ :=
    exists_answer_deep { target := .antigravity } 125 (by decide)
  have hfits : FitsIn (depthLimit + 1) document :=
    fitsIn_of_antigravity { target := .antigravity } "" "gemini" false .counting rfl
      (Body.fitsIn_withoutModel (Body.fitsIn_deep 125)) hresult
  have hextra : (Body.deep 125).field? "extra" = some (.nested 125) := rfl
  have hdeep : depthLimit < document.nesting := by
    have hn := nesting_of_antigravity { target := .antigravity } "" "gemini" false .counting rfl
      (by decide) hextra hresult
    rwa [Json.nesting_nested] at hn
  obtain ⟨position, he⟩ := Json.faithful_read.refuses hfits.legible hdeep
  exact ⟨Json.faithful_read, document, position, hd, he⟩

end Dialogue
