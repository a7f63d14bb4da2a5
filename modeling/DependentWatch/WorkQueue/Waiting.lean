import DependentWatch.WorkQueue
/-! Workers that wait for an item. An item that is pushed onto the queue wakes the worker who has
waited longest, or else leaves a permit, of which there is at most one. -/
namespace DependentWatch

/-- Where a worker stands on the way to an item: about to prepare a wait, having prepared one
when all had been woken so many times, having looked at the queue in vain, waiting, or at the
end. -/
inductive Stage (α : Type) where
  | idle
  | prepared (epoch : Nat)
  | checked (epoch : Nat)
  | parked
  | finished (handout : Handout α)
deriving DecidableEq

/-- Workers are told apart by numbers; two of them may have one name. -/
structure Worker (α : Type) where
  id : Nat
  name : String
  stage : Stage α
deriving DecidableEq

/-- `parked` holds the waiting workers, the longest wait first. `epoch` counts how often all were
woken. `owed` counts the pushes that have not woken anyone yet. `started` counts the workers. -/
structure WaitingQueue (α : Type) where
  work : WorkQueue α
  permit : Bool
  epoch : Nat
  owed : Nat
  parked : List Nat
  workers : List (Worker α)
  started : Nat

namespace WaitingQueue
variable {α : Type} [DecidableEq α]

def empty : WaitingQueue α := ⟨.empty, false, 0, 0, [], [], 0⟩

def setStage (q : WaitingQueue α) (id : Nat) (s : Stage α) : WaitingQueue α :=
  { q with workers := q.workers.map fun w => if w.id = id then { w with stage := s } else w }

/-- Goes over to a later state of the work, which owes a wake-up if the queue grew. -/
def become (q : WaitingQueue α) (work : WorkQueue α) : WaitingQueue α :=
  { q with work, owed := q.owed + (work.queue.length - q.work.queue.length) }

def wakeOne (q : WaitingQueue α) : WaitingQueue α :=
  match q.parked with
  | [] => { q with permit := true }
  | id :: rest => { q.setStage id .idle with parked := rest }

def wakeAll (q : WaitingQueue α) : WaitingQueue α :=
  { q with
    epoch := q.epoch + 1
    parked := []
    workers := q.workers.map fun w => if w.stage = .parked then { w with stage := .idle } else w }

/-- Sends one wake-up that is owed. -/
def notify (q : WaitingQueue α) : WaitingQueue α :=
  match q.owed with
  | 0 => q
  | n + 1 => { q with owed := n }.wakeOne

/-- Sends all the wake-ups that are owed. -/
def notifyAll (q : WaitingQueue α) : WaitingQueue α := q.owed.repeat notify q

def add (q : WaitingQueue α) (x : α) : WaitingQueue α := (q.become (q.work.add x)).notifyAll

def done (q : WaitingQueue α) (x : α) : WaitingQueue α := (q.become (q.work.done x)).notifyAll

def shutDown (q : WaitingQueue α) : WaitingQueue α := { q with work := q.work.shutDown }.wakeAll

/-- One step of a worker. A wait ends at once on a permit, which it uses up, and when all were
woken after it was prepared. -/
def step (q : WaitingQueue α) (w : Worker α) : WaitingQueue α :=
  match w.stage with
  | .idle => q.setStage w.id (.prepared q.epoch)
  | .prepared e =>
    match q.work.take with
    | (.pending, _) => q.setStage w.id (.checked e)
    | (handout, work) => { q with work }.setStage w.id (.finished handout)
  | .checked e =>
    if q.permit then { q.setStage w.id .idle with permit := false }
    else if e ≠ q.epoch then q.setStage w.id .idle
    else { q.setStage w.id .parked with parked := q.parked ++ [w.id] }
  | .parked | .finished _ => q

def stepId (q : WaitingQueue α) (id : Nat) : WaitingQueue α :=
  match q.workers.find? (·.id = id) with
  | some w => q.step w
  | none => q

/-- Lets a worker go on until it waits or is at the end. It passes the queue at most three times:
once more for a permit and once more for a wake-up of all. -/
def runWorker (q : WaitingQueue α) (id : Nat) : WaitingQueue α :=
  (9).repeat (·.stepId id) q

/-- Lets every worker go on. -/
def settle (q : WaitingQueue α) : WaitingQueue α :=
  q.workers.foldl (fun q w => q.runWorker w.id) q

/-- A new worker. -/
def start (q : WaitingQueue α) (name : String) : WaitingQueue α :=
  { q with workers := q.workers ++ [⟨q.started, name, .idle⟩], started := q.started + 1 }

/-- A worker who gives up. -/
def leave (q : WaitingQueue α) (id : Nat) : WaitingQueue α :=
  { q with workers := q.workers.filter (·.id ≠ id), parked := q.parked.filter (· ≠ id) }

/-- Takes the workers out who are at the end, with what they got. -/
def collect (q : WaitingQueue α) : List (String × Handout α) × WaitingQueue α :=
  (q.workers.filterMap fun
    | ⟨_, name, .finished h⟩ => some (name, h)
    | _ => none,
   { q with workers := q.workers.filter fun
    | ⟨_, _, .finished _⟩ => false
    | _ => true })

/-- Asks once without waiting. -/
def poll (q : WaitingQueue α) : Handout α × WaitingQueue α :=
  let id := q.started
  let q := (q.start "").runWorker id
  match q.workers.find? (·.id = id) with
  | some ⟨_, _, .finished h⟩ => (h, q.leave id)
  | _ => (.pending, q.leave id)

end WaitingQueue
end DependentWatch
