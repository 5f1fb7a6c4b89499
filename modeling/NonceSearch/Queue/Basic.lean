import NonceSearch.Protocol.Completion

/-!
# Completion queue

Messages wait in the order in which they were pushed, and each is taken out once: by a reader, or
together with all others when the queue is flushed or drained. The contents are the queue's only
state, so every operation is described by what it does to that list.
-/

namespace NonceSearch

/-- The messages that wait to be read, oldest first. -/
structure CompletionQueue where
  messages : List CompletionMessage := []
  deriving DecidableEq, Repr

namespace CompletionQueue

def empty : CompletionQueue := {}

instance : Inhabited CompletionQueue := ⟨empty⟩

def length (queue : CompletionQueue) : Nat := queue.messages.length

def isReady (queue : CompletionQueue) : Bool := !queue.messages.isEmpty

def push (queue : CompletionQueue) (message : CompletionMessage) : CompletionQueue :=
  ⟨queue.messages ++ [message]⟩

def take? (queue : CompletionQueue) : Option (CompletionMessage × CompletionQueue) :=
  match queue.messages with
  | [] => none
  | message :: rest => some (message, ⟨rest⟩)

/-- Drop everything; how much that was. -/
def flush (queue : CompletionQueue) : Nat × CompletionQueue := (queue.length, empty)

/-- Take everything, oldest first. -/
def drain (queue : CompletionQueue) : List CompletionMessage × CompletionQueue :=
  (queue.messages, empty)

@[simp] theorem messages_push (queue : CompletionQueue) (message : CompletionMessage) :
    (queue.push message).messages = queue.messages ++ [message] := rfl

/-- Taking a message and putting the rest behind it gives the queue back. -/
theorem messages_of_take? {queue rest : CompletionQueue} {message : CompletionMessage}
    (h : queue.take? = some (message, rest)) : queue.messages = message :: rest.messages := by
  obtain ⟨messages⟩ := queue
  cases messages with
  | nil => simp [take?] at h
  | cons first others =>
    simp only [take?, Option.some.injEq, Prod.mk.injEq] at h
    obtain ⟨rfl, rfl⟩ := h
    rfl

theorem take?_eq_none_iff (queue : CompletionQueue) : queue.take? = none ↔ queue.isReady = false := by
  obtain ⟨messages⟩ := queue
  cases messages <;> simp [take?, isReady]

end CompletionQueue

end NonceSearch
