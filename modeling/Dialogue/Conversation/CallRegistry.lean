import Dialogue.Json.Value

namespace Dialogue.Conversation

/-- The identifiers of the calls to one function, and how many of them are answered. -/
structure CallQueue where
  ids : List Json := []
  answered : Nat := 0
  deriving DecidableEq, Repr

def CallQueue.record (queue : CallQueue) (id : Json) : CallQueue :=
  { queue with ids := queue.ids ++ [id] }

def CallQueue.front? (queue : CallQueue) : Option Json := queue.ids[queue.answered]?

def CallQueue.answer (queue : CallQueue) : CallQueue :=
  { queue with answered := queue.answered + 1 }

structure CallRegistry where
  queues : List (String × CallQueue) := []
  deriving DecidableEq, Repr

namespace CallRegistry

def find (name : String) : List (String × CallQueue) → CallQueue
  | [] => {}
  | (n, queue) :: rest => if n = name then queue else find name rest

def update (name : String) (queue : CallQueue) :
    List (String × CallQueue) → List (String × CallQueue)
  | [] => [(name, queue)]
  | (n, q) :: rest => if n = name then (n, queue) :: rest else (n, q) :: update name queue rest

def queue (registry : CallRegistry) (name : String) : CallQueue := find name registry.queues

def record (registry : CallRegistry) (name : String) (id : Json) : CallRegistry :=
  ⟨update name ((registry.queue name).record id) registry.queues⟩

def claim (registry : CallRegistry) (name : String) : Option Json × CallRegistry :=
  match (registry.queue name).front? with
  | some id => (some id, ⟨update name (registry.queue name).answer registry.queues⟩)
  | none => (none, registry)

def issued (registry : CallRegistry) (name : String) : Nat := (registry.queue name).ids.length

def consumed (registry : CallRegistry) (name : String) : Nat := (registry.queue name).answered

theorem find_update (name other : String) (queue : CallQueue)
    (queues : List (String × CallQueue)) :
    find other (update name queue queues) = if name = other then queue else find other queues := by
  induction queues with
  | nil => simp [update, find]
  | cons entry rest ih =>
    obtain ⟨n, q⟩ := entry
    by_cases h : n = name
    · subst h; by_cases ho : n = other <;> simp [update, find, ho]
    · by_cases ho : n = other
      · subst ho; simp [update, find, h, Ne.symm h]
      · simp [update, find, h, ho, ih]

@[simp] theorem queue_record (registry : CallRegistry) (name other : String) (id : Json) :
    (registry.record name id).queue other =
      if name = other then (registry.queue name).record id else registry.queue other :=
  find_update ..

theorem queue_claim (registry : CallRegistry) (name other : String) :
    (registry.claim name).2.queue other =
      if name = other ∧ ((registry.queue name).front?).isSome then (registry.queue name).answer
      else registry.queue other := by
  unfold claim
  split
  · next id h => rw [h, queue, find_update]; simp [queue]
  · next h => simp [h]

end CallRegistry

end Dialogue.Conversation
