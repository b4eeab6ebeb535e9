namespace Dialogue

structure IdSource where
  text : Nat → String
  drawn : Nat := 0

namespace IdSource

def next (ids : IdSource) : String := ids.text ids.drawn

def advance (ids : IdSource) : IdSource := { ids with drawn := ids.drawn + 1 }

def Nonempty (ids : IdSource) : Prop := ∀ n, ids.text n ≠ ""

def counting : IdSource := { text := fun n => "call_" ++ toString n }

def bytesPerId : Nat := 12

def ofBytes (bytes : List UInt8) : String :=
  "toolu_" ++ String.ofList (bytes.flatMap fun b =>
    [Nat.digitChar (b.toNat / 16), Nat.digitChar (b.toNat % 16)])

def random (bytes : List UInt8) : IdSource where
  text n := ofBytes ((bytes.drop (bytesPerId * n)).take bytesPerId)

@[simp] theorem drawn_advance (ids : IdSource) : ids.advance.drawn = ids.drawn + 1 := rfl

theorem nonempty_counting : counting.Nonempty := by
  intro n h
  simpa [counting] using congrArg String.toList h

theorem nonempty_random (bytes : List UInt8) : (random bytes).Nonempty := by
  intro n h
  simpa [random, ofBytes] using congrArg String.toList h

end IdSource

end Dialogue
