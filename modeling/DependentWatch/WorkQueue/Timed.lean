import DependentWatch.Duration
import DependentWatch.WorkQueue.Waiting
/-! The queue in the course of time: items that arrive later, and retries. -/
namespace DependentWatch

structure Timer (α : Type) where
  due : Nat
  item : α
deriving DecidableEq

/-- Times are nanoseconds since the start. -/
structure TimedQueue (α : Type) where
  waiting : WaitingQueue α
  backoff : Backoff
  now : Nat
  timers : List (Timer α)

namespace TimedQueue
variable {α : Type} [DecidableEq α]

def empty (backoff : Backoff) : TimedQueue α := ⟨.empty, backoff, 0, []⟩

def work (q : TimedQueue α) : WorkQueue α := q.waiting.work

def add (q : TimedQueue α) (x : α) : TimedQueue α := { q with waiting := q.waiting.add x }

def addAfter (q : TimedQueue α) (x : α) (d : Duration) : TimedQueue α :=
  if d.nanos = 0 then q.add x else { q with timers := q.timers ++ [⟨q.now + d.nanos, x⟩] }

/-- Counts a retry and schedules it by the number of those before. -/
def retry (q : TimedQueue α) (x : α) : TimedQueue α :=
  let delay := q.backoff.delay (q.work.retryCount x)
  { q with waiting := { q.waiting with work := q.work.countRetry x } }.addAfter x delay

def forget (q : TimedQueue α) (x : α) : TimedQueue α :=
  { q with waiting := { q.waiting with work := q.work.forget x } }

def done (q : TimedQueue α) (x : α) : TimedQueue α := { q with waiting := q.waiting.done x }

def shutDown (q : TimedQueue α) : TimedQueue α := { q with waiting := q.waiting.shutDown }

/-- The item of a timer arrives. -/
def fire (q : TimedQueue α) (t : Timer α) : TimedQueue α :=
  { q with timers := q.timers.erase t }.add t.item

/-- Lets time pass. The timers that fall due up to its end fire in the order of their times. -/
def advance (q : TimedQueue α) (nanos : Nat) : TimedQueue α :=
  let now := q.now + nanos
  let due := (q.timers.filter (·.due ≤ now)).mergeSort fun a b => a.due ≤ b.due
  { due.foldl (fun q t => { q.fire t with waiting := (q.fire t).waiting.settle }) q with now }

end TimedQueue
end DependentWatch
