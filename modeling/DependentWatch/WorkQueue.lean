/-! A queue of work in which an item waits at most once. An item that is being worked on is not
handed out again; if it is added meanwhile, it is queued when the work on it is done. -/
namespace DependentWatch

/-- `dirty` holds the items that were added and not handed out since, `processing` those that were
handed out and are not done. Both hold an item once. `retries` counts in 32 bits. -/
structure WorkQueue (α : Type) where
  queue : List α
  dirty : List α
  processing : List α
  retries : List (α × UInt32)
  shuttingDown : Bool

/-- What a worker gets who asks for an item. -/
inductive Handout (α : Type) where
  | item (x : α)
  | closed
  | pending
deriving DecidableEq

namespace WorkQueue
variable {α : Type} [DecidableEq α]

def empty : WorkQueue α := ⟨[], [], [], [], false⟩

/-- Nothing happens to an item that is dirty already, and none enters while shutting down. -/
def add (q : WorkQueue α) (x : α) : WorkQueue α :=
  if q.shuttingDown ∨ x ∈ q.dirty then q
  else if x ∈ q.processing then { q with dirty := x :: q.dirty }
  else { q with dirty := x :: q.dirty, queue := q.queue ++ [x] }

/-- Hands out the item at the front. Only a queue that is empty can be closed. -/
def take (q : WorkQueue α) : Handout α × WorkQueue α :=
  match q.queue with
  | x :: rest =>
    (.item x, { q with
      queue := rest
      dirty := q.dirty.filter (· ≠ x)
      processing := q.processing.insert x })
  | [] => (if q.shuttingDown then .closed else .pending, q)

/-- The work on an item is done. Whether it was handed out is not looked at. -/
def done (q : WorkQueue α) (x : α) : WorkQueue α :=
  { q with
    processing := q.processing.filter (· ≠ x)
    queue := if x ∈ q.dirty then q.queue ++ [x] else q.queue }

/-- The retries of the item that were asked for since it was forgotten. Behind the largest number
the counter starts again. -/
def counter (q : WorkQueue α) (x : α) : UInt32 := (q.retries.lookup x).getD 0

/-- How many retries the counter tells. -/
def retryCount (q : WorkQueue α) (x : α) : Nat := (q.counter x).toNat

def countRetry (q : WorkQueue α) (x : α) : WorkQueue α :=
  { q with retries := (x, q.counter x + 1) :: q.retries.filter (·.1 ≠ x) }

def forget (q : WorkQueue α) (x : α) : WorkQueue α :=
  { q with retries := q.retries.filter (·.1 ≠ x) }

def shutDown (q : WorkQueue α) : WorkQueue α := { q with shuttingDown := true }

end WorkQueue
end DependentWatch
