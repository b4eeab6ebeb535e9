namespace Dialogue

abbrev Path := List String

namespace Path

def ofText (text : String) : Path := (text.toList.splitOn '.').map String.ofList

def text (path : Path) : String := ".".intercalate path

def valid (path : Path) : Bool := !path.isEmpty && path.all (· ≠ "")

/-- The segment that appends to an array when a path is written to. -/
def appendSegment : String := "-1"

def digit? (c : Char) : Option Nat :=
  if '0' ≤ c ∧ c ≤ '9' then some (c.toNat - '0'.toNat) else none

def digits? (read : Nat) : List Char → Option Nat
  | [] => some read
  | c :: rest => do digits? (read * 10 + (← digit? c)) rest

/-- An index is one or more decimal digits behind an optional plus. -/
def index? (segment : String) : Option Nat :=
  match segment.toList with
  | '+' :: c :: rest => digits? 0 (c :: rest)
  | '+' :: [] => none
  | [] => none
  | c :: rest => digits? 0 (c :: rest)

theorem digit?_of_isDigit {c : Char} (h : c.isDigit = true) :
    digit? c = some (c.toNat - '0'.toNat) := by
  simp only [Char.isDigit, Bool.and_eq_true, decide_eq_true_eq] at h
  have h' : '0' ≤ c ∧ c ≤ '9' := h
  simp [digit?, h']

theorem digits?_of_isDigit {cs : List Char} (h : ∀ c ∈ cs, c.isDigit = true) (read : Nat) :
    digits? read cs = some (Nat.ofDigitChars 10 cs read) := by
  induction cs generalizing read with
  | nil => rfl
  | cons c rest ih =>
    simp only [List.mem_cons, forall_eq_or_imp] at h
    simp [digits?, digit?_of_isDigit h.1, ih h.2, Nat.ofDigitChars_eq_foldl, Nat.mul_comm]

theorem index?_toString (i : Nat) : index? (toString i) = some i := by
  have hd : ∀ c ∈ Nat.toDigits 10 i, c.isDigit = true :=
    fun c hc => Nat.isDigit_of_mem_toDigits (by decide) (by decide) hc
  have hv := digits?_of_isDigit hd 0
  simp only [Nat.ofDigitChars_ten_toDigits] at hv
  rw [index?, Nat.toString_eq_ofList_toDigits, String.toList_ofList]
  cases hs : Nat.toDigits 10 i with
  | nil => exact absurd hs Nat.toDigits_ne_nil
  | cons c rest =>
    have hc : c ≠ '+' := by
      rintro rfl
      exact absurd (hd '+' (by simp [hs])) (by decide)
    rw [hs] at hv
    split <;> simp_all

end Path

inductive PathError where
  | invalid (path : String)
  | notAContainer (path segment : String)
  deriving DecidableEq, Repr

def PathError.message : PathError → String
  | .invalid path => s!"invalid payload path: `{path}`"
  | .notAContainer path segment =>
    s!"cannot address `{segment}` in `{path}`: parent is not a container"

end Dialogue
