import DependentWatch.Proofs.WorkQueue.Acts
import DependentWatch.WorkQueue.Timed
/-! Runs of a queue with its timers and workers, in any order of their steps. What a run does to
the work is a run of acts, and its history is theirs. -/
namespace DependentWatch
variable {α : Type} [DecidableEq α]

/-- Whether the next step of a worker is to look at the queue. -/
def Stage.looks : Stage α → Bool
  | .prepared _ => true
  | _ => false

namespace WaitingQueue

omit [DecidableEq α] in
@[simp] theorem work_setStage (q : WaitingQueue α) (id : Nat) (s : Stage α) :
    (q.setStage id s).work = q.work := rfl

omit [DecidableEq α] in
@[simp] theorem work_wakeOne (q : WaitingQueue α) : q.wakeOne.work = q.work := by
  unfold wakeOne
  split <;> rfl

omit [DecidableEq α] in
@[simp] theorem work_notify (q : WaitingQueue α) : q.notify.work = q.work := by
  unfold notify
  split
  · rfl
  · rw [work_wakeOne]

omit [DecidableEq α] in
@[simp] theorem work_notifyAll (q : WaitingQueue α) : q.notifyAll.work = q.work := by
  suffices ∀ n : Nat, (n.repeat notify q).work = q.work from this q.owed
  intro n
  induction n with
  | zero => rfl
  | succ n ih => simpa [Nat.repeat] using ih

@[simp] theorem work_add (q : WaitingQueue α) (x : α) : (q.add x).work = q.work.add x := by
  simp [add, become]

@[simp] theorem work_done (q : WaitingQueue α) (x : α) : (q.done x).work = q.work.done x := by
  simp [done, become]

theorem work_step (q : WaitingQueue α) (w : Worker α) :
    (q.step w).work = if w.stage.looks then q.work.take.2 else q.work := by
  cases hs : w.stage with
  | idle => simp [step, hs, Stage.looks]
  | prepared e =>
    simp only [step, hs, Stage.looks, if_true]
    cases hq : q.work.queue with
    | nil =>
      rw [WorkQueue.take_nil hq]
      cases q.work.shuttingDown <;> rfl
    | cons x rest =>
      rw [WorkQueue.take_cons hq]
      rfl
  | checked e =>
    simp only [step, hs, Stage.looks, Bool.false_eq_true, if_false]
    split
    · rfl
    · split <;> rfl
  | parked => simp [step, hs, Stage.looks]
  | finished h => simp [step, hs, Stage.looks]

def looks (q : WaitingQueue α) (id : Nat) : Bool :=
  (q.workers.find? (·.id = id)).any (·.stage.looks)

@[simp] theorem work_stepId (q : WaitingQueue α) (id : Nat) :
    (q.stepId id).work = if q.looks id then q.work.take.2 else q.work := by
  unfold stepId looks
  cases q.workers.find? (·.id = id) with
  | none => rfl
  | some w => exact q.work_step w

end WaitingQueue

namespace TimedQueue
open WorkQueue (Act Mark)

/-- Adds an item unless it has a retry. -/
def offer (q : TimedQueue α) (x : α) : TimedQueue α :=
  if 0 < q.work.retryCount x then q else q.add x

/-- What can happen to a queue: calls to it, the arrival of an item that was delayed, the passing
of time, and the steps of workers who wait for items. -/
inductive Op (α : Type) where
  | add (x : α)
  | addAfter (x : α) (d : Duration)
  | retry (x : α)
  | offer (x : α)
  | fire (t : Timer α)
  | forget (x : α)
  | done (x : α)
  | shutDown
  | elapse (nanos : Nat)
  | start (name : String)
  | step (id : Nat)
  | leave (id : Nat)

def perform (q : TimedQueue α) : Op α → TimedQueue α
  | .add x => q.add x
  | .addAfter x d => q.addAfter x d
  | .retry x => q.retry x
  | .offer x => q.offer x
  | .fire t => q.fire t
  | .forget x => q.forget x
  | .done x => q.done x
  | .shutDown => q.shutDown
  | .elapse nanos => { q with now := q.now + nanos }
  | .start name => { q with waiting := q.waiting.start name }
  | .step id => { q with waiting := q.waiting.stepId id }
  | .leave id => { q with waiting := q.waiting.leave id }

/-- What an operation does to the work. -/
def acts (q : TimedQueue α) : Op α → List (Act α)
  | .add x => [.add x]
  | .addAfter x d => if d.nanos = 0 then [.add x] else []
  | .retry x =>
    .countRetry x :: if (q.backoff.delay (q.work.retryCount x)).nanos = 0 then [.add x] else []
  | .offer x => if 0 < q.work.retryCount x then [] else [.add x]
  | .fire t => [.add t.item]
  | .forget x => [.forget x]
  | .done x => [.done x]
  | .shutDown => [.shutDown]
  | .step id => if q.waiting.looks id then [.take] else []
  | .elapse _ | .start _ | .leave _ => []

def system : System (TimedQueue α) (Op α) (Mark α) :=
  ⟨perform, fun q op => WorkQueue.system.log q.work (q.acts op)⟩

/-- Only an item that is being processed gets done. -/
def Proper (q : TimedQueue α) : Op α → Prop
  | .done x => x ∈ q.work.processing
  | _ => True

@[simp] theorem work_add (q : TimedQueue α) (x : α) : (q.add x).work = q.work.add x :=
  WaitingQueue.work_add q.waiting x

theorem work_addAfter (q : TimedQueue α) (x : α) (d : Duration) :
    (q.addAfter x d).work = if d.nanos = 0 then q.work.add x else q.work := by
  unfold addAfter
  split
  · exact q.work_add x
  · rfl

theorem work_perform (q : TimedQueue α) (op : Op α) :
    (q.perform op).work = WorkQueue.system.run q.work (q.acts op) := by
  cases op with
  | add x => exact q.work_add x
  | addAfter x d =>
    simp only [perform, work_addAfter, acts]
    split <;> rfl
  | retry x =>
    simp only [perform, retry, work_addAfter, acts]
    split <;> rfl
  | offer x =>
    simp only [perform, offer, acts]
    split
    · rfl
    · exact q.work_add x
  | fire t => exact work_add _ t.item
  | done x => exact WaitingQueue.work_done q.waiting x
  | step id =>
    have h := WaitingQueue.work_stepId q.waiting id
    simp only [acts]
    split
    · next hl => rwa [if_pos hl] at h
    · next hl => rwa [if_neg hl] at h
  | _ => rfl

/-- Which operation an act belongs to; an item may be added by many. -/
def CausedBy (q : TimedQueue α) (op : Op α) : Act α → Prop
  | .add _ => True
  | .take => ∃ id, op = .step id ∧ q.waiting.looks id
  | .done x => op = .done x
  | .countRetry x => op = .retry x
  | .forget x => op = .forget x
  | .shutDown => op = .shutDown

theorem causedBy_of_mem_acts {q : TimedQueue α} {op : Op α} {a : Act α} (h : a ∈ q.acts op) :
    q.CausedBy op a := by
  cases op with
  | addAfter x d =>
    simp only [acts] at h
    split at h
    · rw [List.mem_singleton.1 h]
      trivial
    · simp at h
  | retry x =>
    obtain rfl | h := List.mem_cons.1 h
    · rfl
    · split at h
      · rw [List.mem_singleton.1 h]
        trivial
      · simp at h
  | offer x =>
    simp only [acts] at h
    split at h
    · simp at h
    · rw [List.mem_singleton.1 h]
      trivial
  | step id =>
    simp only [acts] at h
    split at h
    · next hl =>
      rw [List.mem_singleton.1 h]
      exact ⟨id, rfl, hl⟩
    · simp at h
  | elapse n => simp [acts] at h
  | start name => simp [acts] at h
  | leave id => simp [acts] at h
  | _ =>
    rw [List.mem_singleton.1 h]
    simp [CausedBy]

theorem shutDown_mem_acts_iff (q : TimedQueue α) (op : Op α) :
    .shutDown ∈ q.acts op ↔ op = .shutDown := by
  constructor
  · exact fun h => causedBy_of_mem_acts h
  · rintro rfl
    exact List.mem_singleton_self _

/-- A run shuts the queue down by an operation that does. -/
theorem shuttingDown_run_iff (q : TimedQueue α) (ops : List (Op α)) :
    (system.run q ops).work.shuttingDown = true ↔
      q.work.shuttingDown = true ∨ .shutDown ∈ ops := by
  refine system.run_iff_of_step (P := fun q => q.work.shuttingDown = true) (fun q op => ?_) q ops
  show (q.perform op).work.shuttingDown = true ↔ _
  rw [work_perform, WorkQueue.shuttingDown_run_iff, shutDown_mem_acts_iff]

theorem shuttingDown_empty_run_iff (backoff : Backoff) (ops : List (Op α)) :
    (system.run (.empty backoff) ops).work.shuttingDown = true ↔ .shutDown ∈ ops := by
  rw [shuttingDown_run_iff]
  exact or_iff_right Bool.false_ne_true

/-- An operation that adds an item: for its own sake, because there is nothing to wait for, or
because the wait is over. -/
def Adds (q : TimedQueue α) (x : α) : Op α → Prop
  | .add y => y = x
  | .addAfter y d => y = x ∧ d.nanos = 0
  | .retry y => y = x ∧ (q.backoff.delay (q.work.retryCount x)).nanos = 0
  | .offer y => y = x ∧ q.work.retryCount x = 0
  | .fire t => t.item = x
  | _ => False

theorem add_mem_acts_iff (q : TimedQueue α) (op : Op α) (x : α) :
    .add x ∈ q.acts op ↔ q.Adds x op := by
  cases op with
  | addAfter y d =>
    simp only [acts, Adds]
    split <;> simp_all [eq_comm]
  | retry y =>
    simp only [acts, Adds]
    by_cases h : y = x
    · subst h
      split <;> simp_all
    · split <;> simp [h, Ne.symm h]
  | offer y =>
    simp only [acts, Adds]
    by_cases h : y = x
    · subst h
      split <;> simp <;> omega
    · split <;> simp [h, Ne.symm h]
  | step id =>
    simp only [acts, Adds]
    split <;> simp
  | _ => simp [acts, Adds, eq_comm]

/-- An item enters by an operation that adds it while the queue is open. -/
theorem entered_mem_marks_iff (q : TimedQueue α) (op : Op α) (x : α) :
    .entered x ∈ system.marks q op ↔ q.Adds x op ∧ q.work.shuttingDown = false := by
  by_cases hop : op = .shutDown
  · subst hop
    simp [system, acts, Adds, System.log, WorkQueue.system, WorkQueue.marks]
  · have hacts : .shutDown ∉ q.acts op := fun h => hop ((q.shutDown_mem_acts_iff op).1 h)
    exact (WorkQueue.entered_mem_log_iff hacts x).trans (and_congr_left' (q.add_mem_acts_iff op x))

/-- Only the end of work is an act that an operation brings about by itself alone. -/
theorem throughout_acts {A : WorkQueue α → Act α → Prop} (rest : ∀ w a, (∀ x, a ≠ .done x) → A w a)
    {q : TimedQueue α} {op : Op α} (done : ∀ x, op = .done x → A q.work (.done x)) :
    WorkQueue.system.Throughout A q.work (q.acts op) := by
  by_cases hop : ∃ x, op = .done x
  · obtain ⟨x, rfl⟩ := hop
    exact ⟨done x rfl, trivial⟩
  · refine WorkQueue.system.throughout_of_forall (fun a ha w => ?_) q.work
    refine rest w a fun x hx => hop ⟨x, ?_⟩
    exact (hx ▸ causedBy_of_mem_acts ha : q.CausedBy op (.done x))

theorem proper_acts {q : TimedQueue α} {op : Op α} (h : q.Proper op) :
    WorkQueue.system.Throughout WorkQueue.Proper q.work (q.acts op) := by
  refine throughout_acts (fun w a ha => ?_) fun x hx => ?_
  · cases a with
    | done x => exact absurd rfl (ha x)
    | _ => trivial
  · subst hx
    exact h

/-- What the acts keep of the work, a run keeps. -/
theorem invariant {A : WorkQueue α → Act α → Prop} {B : TimedQueue α → Op α → Prop}
    {I : WorkQueue α → List (Mark α) → Prop}
    (allow : ∀ q op, B q op → WorkQueue.system.Throughout A q.work (q.acts op))
    (keep : ∀ w log a, I w log → A w a → I (w.perform a) (log ++ w.marks a))
    {q : TimedQueue α} {l : List (Mark α)} {ops : List (Op α)} (start : I q.work l)
    (h : system.Throughout B q ops) : I (system.run q ops).work (l ++ system.log q ops) := by
  refine system.invariant (I := fun q log => I q.work log) (fun q log op hi ho => ?_) start h
  have := WorkQueue.system.invariant keep hi (allow q op ho)
  rwa [← work_perform] at this

theorem invariant_any {I : WorkQueue α → List (Mark α) → Prop}
    (keep : ∀ w log a, I w log → I (w.perform a) (log ++ w.marks a))
    {q : TimedQueue α} {l : List (Mark α)} (start : I q.work l) (ops : List (Op α)) :
    I (system.run q ops).work (l ++ system.log q ops) :=
  invariant (A := fun _ _ => True) (B := fun _ _ => True)
    (fun q _ _ => WorkQueue.system.throughout_of_forall (fun _ _ _ => trivial) q.work)
    (fun w log a hi _ => keep w log a hi) start
    (system.throughout_of_forall (fun _ _ _ => trivial) q)

theorem regular_run {backoff : Backoff} {ops : List (Op α)}
    (h : system.Throughout Proper (.empty backoff) ops) :
    (system.run (.empty backoff) ops).work.Regular (system.log (.empty backoff) ops) := by
  have start : WorkQueue.Regular (empty backoff : TimedQueue α).work [] := WorkQueue.regular_empty
  exact invariant (fun _ _ => proper_acts) (fun _ _ a hi ha => hi.perform a ha) start h

theorem tracked_run (backoff : Backoff) (ops : List (Op α)) :
    (system.run (.empty backoff) ops).work.Tracked (system.log (.empty backoff) ops) := by
  have start : WorkQueue.Tracked (empty backoff : TimedQueue α).work [] := WorkQueue.tracked_empty
  exact invariant_any (fun _ _ a hi => hi.perform a) start ops

theorem feeds_run (q : TimedQueue α) (ops : List (Op α)) :
    WorkQueue.Feeds q.work.queue (system.run q ops).work (system.log q ops) := by
  have start : WorkQueue.Feeds q.work.queue q.work [] := ⟨[], by simp [WorkQueue.handouts]⟩
  exact invariant_any (fun _ _ a hi => hi.perform a) start ops

end TimedQueue
end DependentWatch
