/-!
JSON values as a request carries them.  A number is its spelling and an object is its members in
document order, so a value that is carried through unchanged is written back unchanged.

The reader never produces an object with a repeated key.  That is the predicate `Json.Distinct`;
the operations below look at the first member with a key, and say what they do on any list.
-/

namespace Dialogue

inductive Json where
  | null
  | bool (value : Bool)
  | number (spelling : String)
  | string (text : String)
  | array (items : List Json)
  | object (members : List (String × Json))
  deriving Repr, Inhabited

abbrev Members := List (String × Json)

namespace Json

mutual

def decEq : (a b : Json) → Decidable (a = b)
  | .null, .null => isTrue rfl
  | .bool a, .bool b => decidable_of_iff (a = b) (by simp)
  | .number a, .number b => decidable_of_iff (a = b) (by simp)
  | .string a, .string b => decidable_of_iff (a = b) (by simp)
  | .array a, .array b =>
    match decEqItems a b with
    | isTrue h => isTrue (by simp [h])
    | isFalse h => isFalse (by simp [h])
  | .object a, .object b =>
    match decEqMembers a b with
    | isTrue h => isTrue (by simp [h])
    | isFalse h => isFalse (by simp [h])
  | .null, .bool _ | .null, .number _ | .null, .string _ | .null, .array _ | .null, .object _
  | .bool _, .null | .bool _, .number _ | .bool _, .string _ | .bool _, .array _
  | .bool _, .object _
  | .number _, .null | .number _, .bool _ | .number _, .string _ | .number _, .array _
  | .number _, .object _
  | .string _, .null | .string _, .bool _ | .string _, .number _ | .string _, .array _
  | .string _, .object _
  | .array _, .null | .array _, .bool _ | .array _, .number _ | .array _, .string _
  | .array _, .object _
  | .object _, .null | .object _, .bool _ | .object _, .number _ | .object _, .string _
  | .object _, .array _ => isFalse (by simp)

def decEqItems : (a b : List Json) → Decidable (a = b)
  | [], [] => isTrue rfl
  | [], _ :: _ => isFalse (by simp)
  | _ :: _, [] => isFalse (by simp)
  | x :: xs, y :: ys =>
    match decEq x y, decEqItems xs ys with
    | isTrue h, isTrue t => isTrue (by simp [h, t])
    | isFalse h, _ => isFalse (by simp [h])
    | _, isFalse t => isFalse (by simp [t])

def decEqMembers : (a b : List (String × Json)) → Decidable (a = b)
  | [], [] => isTrue rfl
  | [], _ :: _ => isFalse (by simp)
  | _ :: _, [] => isFalse (by simp)
  | (k, x) :: xs, (l, y) :: ys =>
    if hk : k = l then
      match decEq x y, decEqMembers xs ys with
      | isTrue h, isTrue t => isTrue (by simp [hk, h, t])
      | isFalse h, _ => isFalse (by simp [h])
      | _, isFalse t => isFalse (by simp [t])
    else isFalse (by simp [hk])

end

instance : DecidableEq Json := decEq

end Json

namespace Members

def get? (key : String) : Members → Option Json
  | [] => none
  | (k, v) :: rest => if k = key then some v else get? key rest

/-- Overwrites the value in place when the key is there, and appends the member when it is not. -/
def put (key : String) (value : Json) : Members → Members
  | [] => [(key, value)]
  | (k, v) :: rest => if k = key then (k, value) :: rest else (k, v) :: put key value rest

def erase (key : String) : Members → Members
  | [] => []
  | (k, v) :: rest => if k = key then rest else (k, v) :: erase key rest

@[simp] theorem get?_nil (key : String) : get? key [] = none := rfl

theorem get?_cons (key k : String) (v : Json) (rest : Members) :
    get? key ((k, v) :: rest) = if k = key then some v else get? key rest := rfl

@[simp] theorem get?_put_self (key : String) (value : Json) (ms : Members) :
    get? key (put key value ms) = some value := by
  induction ms with
  | nil => simp [put, get?]
  | cons m rest ih =>
    obtain ⟨k, v⟩ := m
    by_cases h : k = key <;> simp [put, get?, h, ih]

theorem get?_put_of_ne {key other : String} (h : other ≠ key) (value : Json) (ms : Members) :
    get? other (put key value ms) = get? other ms := by
  induction ms with
  | nil => simp [put, get?, Ne.symm h]
  | cons m rest ih =>
    obtain ⟨k, v⟩ := m
    by_cases hk : k = key
    · subst hk; simp [put, get?, Ne.symm h]
    · simp [put, get?, hk, ih]

theorem put_of_get? {key : String} {value : Json} {ms : Members} (h : get? key ms = some value) :
    put key value ms = ms := by
  induction ms with
  | nil => simp at h
  | cons m rest ih =>
    obtain ⟨k, v⟩ := m
    by_cases hk : k = key
    · simp_all [put, get?]
    · simp_all [put, get?]

@[simp] theorem put_put (key : String) (v w : Json) (ms : Members) :
    put key w (put key v ms) = put key w ms := by
  induction ms with
  | nil => simp [put]
  | cons m rest ih =>
    obtain ⟨k, x⟩ := m
    by_cases h : k = key <;> simp [put, h, ih]

theorem keys_put_of_mem {key : String} {value : Json} {ms : Members}
    (h : key ∈ ms.map Prod.fst) : (put key value ms).map Prod.fst = ms.map Prod.fst := by
  induction ms with
  | nil => simp at h
  | cons m rest ih =>
    obtain ⟨k, x⟩ := m
    by_cases hk : k = key
    · simp [put, hk]
    · simp only [List.map_cons, List.mem_cons, Ne.symm hk, false_or] at h
      simp [put, hk, ih h]

theorem put_of_not_mem {key : String} {value : Json} {ms : Members}
    (h : key ∉ ms.map Prod.fst) : put key value ms = ms ++ [(key, value)] := by
  induction ms with
  | nil => rfl
  | cons m rest ih =>
    obtain ⟨k, x⟩ := m
    simp only [List.map_cons, List.mem_cons, not_or] at h
    simp [put, Ne.symm h.1, ih h.2]

theorem get?_eq_none_iff {key : String} {ms : Members} :
    get? key ms = none ↔ key ∉ ms.map Prod.fst := by
  induction ms with
  | nil => simp
  | cons m rest ih =>
    obtain ⟨k, v⟩ := m
    by_cases h : k = key
    · simp [get?, h]
    · simp [get?, h, Ne.symm h, ih]

theorem get?_erase_of_ne {key other : String} (h : other ≠ key) (ms : Members) :
    get? other (erase key ms) = get? other ms := by
  induction ms with
  | nil => rfl
  | cons m rest ih =>
    obtain ⟨k, v⟩ := m
    by_cases hk : k = key
    · subst hk; simp [erase, get?, Ne.symm h]
    · simp [erase, get?, hk, ih]

theorem erase_sublist (key : String) (ms : Members) : (erase key ms).Sublist ms := by
  induction ms with
  | nil => exact .slnil
  | cons m rest ih =>
    obtain ⟨k, v⟩ := m
    by_cases hk : k = key
    · simp [erase, hk]
    · simpa [erase, hk] using ih

theorem get?_erase_self {key : String} {ms : Members} (h : (ms.map Prod.fst).Nodup) :
    get? key (erase key ms) = none := by
  induction ms with
  | nil => rfl
  | cons m rest ih =>
    obtain ⟨k, v⟩ := m
    simp only [List.map_cons, List.nodup_cons] at h
    by_cases hk : k = key
    · subst hk; simpa [erase] using get?_eq_none_iff.2 h.1
    · simp [erase, get?, hk, ih h.2]

theorem nodup_put {key : String} {value : Json} {ms : Members} (h : (ms.map Prod.fst).Nodup) :
    ((put key value ms).map Prod.fst).Nodup := by
  by_cases hk : key ∈ ms.map Prod.fst
  · rwa [keys_put_of_mem hk]
  · simp only [put_of_not_mem hk, List.map_append, List.map_cons, List.map_nil]
    refine List.nodup_append.2 ⟨h, by simp, fun a ha b hb he => hk ?_⟩
    rwa [← List.mem_singleton.1 hb, ← he]

end Members

namespace Json

def items? : Json → Option (List Json)
  | .array xs => some xs
  | _ => none

def text? : Json → Option String
  | .string s => some s
  | _ => none

def field? (node : Json) (key : String) : Option Json :=
  match node with
  | .object ms => Members.get? key ms
  | _ => none

def putField (node : Json) (key : String) (value : Json) : Json :=
  match node with
  | .object ms => .object (Members.put key value ms)
  | other => other

def isObject : Json → Bool
  | .object _ => true
  | _ => false

def isString : Json → Bool
  | .string _ => true
  | _ => false

@[simp] theorem field?_object (key : String) (ms : Members) :
    (Json.object ms).field? key = Members.get? key ms := rfl

@[simp] theorem putField_object (key : String) (value : Json) (ms : Members) :
    (Json.object ms).putField key value = .object (Members.put key value ms) := rfl

theorem isObject_of_field? {key : String} {v w : Json} (h : v.field? key = some w) :
    v.isObject = true := by
  cases v <;> simp_all [field?, isObject]

mutual

/-- No object in the tree repeats a key. -/
def Distinct : Json → Prop
  | .array xs => DistinctItems xs
  | .object ms => (ms.map Prod.fst).Nodup ∧ DistinctMembers ms
  | _ => True

def DistinctItems : List Json → Prop
  | [] => True
  | x :: xs => Distinct x ∧ DistinctItems xs

def DistinctMembers : List (String × Json) → Prop
  | [] => True
  | (_, v) :: rest => Distinct v ∧ DistinctMembers rest

end

end Json

end Dialogue
