import DependentWatch.Proofs.WorkQueue.Operations
import Mathlib.Data.List.Perm.Basic
/-! Items that arrive in the course of time: each one when its timer falls due, and not before. -/
namespace DependentWatch
variable {α : Type} [DecidableEq α]

namespace WorkQueue

/-- An item has arrived: it waits, or a worker has it. -/
def Arrived (w : WorkQueue α) (x : α) : Prop := x ∈ w.dirty ∨ x ∈ w.processing

theorem Arrived.perform {w : WorkQueue α} {x : α} (h : w.Arrived x) {a : Act α} (ha : a ≠ .done x) :
    (w.perform a).Arrived x := by
  unfold Arrived
  rw [mem_dirty_perform, mem_processing_perform]
  by_cases hm : .handedOut x ∈ w.marks a
  · exact .inr (.inl hm)
  · obtain hd | hp := h
    · exact .inl (.inr ⟨hd, hm⟩)
    · exact .inr (.inr ⟨hp, fun hdone => ha (act_of_mem_marks hdone)⟩)

theorem arrived_add {w : WorkQueue α} (h : w.shuttingDown = false) (x : α) : (w.add x).Arrived x := by
  have hm : .entered x ∈ w.marks (.add x) := by simp [marks, h]
  exact .inl ((w.mem_dirty_perform (.add x) x).2 (.inl hm))

end WorkQueue

/-! What holds of the work through every hand-out, and through every item that is added, holds when
time has passed: the workers go on in between, and nothing else happens. -/

namespace WaitingQueue
variable {P : WorkQueue α → Prop} (take : ∀ w, P w → P w.take.2)
include take

theorem work_runWorker {q : WaitingQueue α} (h : P q.work) (id : Nat) : P (q.runWorker id).work := by
  suffices ∀ n : Nat, P (n.repeat (·.stepId id) q).work from this 9
  intro n
  induction n with
  | zero => exact h
  | succ n ih =>
    rw [Nat.repeat, work_stepId]
    split
    · exact take _ ih
    · exact ih

theorem work_settle {q : WaitingQueue α} (h : P q.work) : P q.settle.work := by
  suffices ∀ (workers : List (Worker α)) (q : WaitingQueue α), P q.work →
      P (workers.foldl (fun q w => q.runWorker w.id) q).work from this q.workers q h
  intro workers
  induction workers with
  | nil => exact fun _ h => h
  | cons w workers ih => exact fun q h => ih _ (work_runWorker take h w.id)

end WaitingQueue

namespace TimedQueue

/-- The item of a timer arrives, and the workers go on. -/
def arrive (q : TimedQueue α) (t : Timer α) : TimedQueue α :=
  { q.fire t with waiting := (q.fire t).waiting.settle }

/-- The timers that fall due in so much time, in the order of their times. -/
def dueWithin (q : TimedQueue α) (nanos : Nat) : List (Timer α) :=
  (q.timers.filter (·.due ≤ q.now + nanos)).mergeSort fun a b => a.due ≤ b.due

theorem advance_eq (q : TimedQueue α) (nanos : Nat) :
    q.advance nanos = { (q.dueWithin nanos).foldl arrive q with now := q.now + nanos } := rfl

theorem timers_foldl_arrive (due : List (Timer α)) (q : TimedQueue α) :
    (due.foldl arrive q).timers = q.timers.diff due := by
  induction due generalizing q with
  | nil => rfl
  | cons t due ih =>
    rw [List.foldl_cons, ih, List.diff_cons]
    rfl

theorem diff_filter (timers : List (Timer α)) (p : Timer α → Bool) :
    timers.diff (timers.filter p) = timers.filter (!p ·) := by
  induction timers with
  | nil => simp
  | cons t timers ih =>
    cases hp : p t with
    | true => simpa [hp] using ih
    | false =>
      have ht : t ∉ timers.filter p := by simp [hp]
      simpa [hp, List.cons_diff_of_not_mem ht] using ih

/-- A timer stays until its time has come. -/
theorem timers_advance (q : TimedQueue α) (nanos : Nat) :
    (q.advance nanos).timers = q.timers.filter (q.now + nanos < ·.due) := by
  have hperm : (q.dueWithin nanos).Perm (q.timers.filter (·.due ≤ q.now + nanos)) :=
    List.mergeSort_perm _ _
  calc
    (q.advance nanos).timers = q.timers.diff (q.dueWithin nanos) := timers_foldl_arrive _ q
    _ = q.timers.diff (q.timers.filter (·.due ≤ q.now + nanos)) := hperm.diff_left q.timers
    _ = q.timers.filter (q.now + nanos < ·.due) := by
        rw [diff_filter]
        refine List.filter_congr fun t _ => ?_
        rw [← decide_not, decide_eq_decide, Nat.not_le]

section
variable {P : WorkQueue α → Prop} (take : ∀ w, P w → P w.take.2) (add : ∀ w x, P w → P (w.add x))
include take add

theorem work_arrive {q : TimedQueue α} (h : P q.work) (t : Timer α) : P (q.arrive t).work := by
  refine WaitingQueue.work_settle take ?_
  show P (q.fire t).work
  rw [fire, work_add]
  exact add _ t.item h

theorem work_foldl_arrive {q : TimedQueue α} (h : P q.work) (due : List (Timer α)) :
    P (due.foldl arrive q).work := by
  induction due generalizing q with
  | nil => exact h
  | cons t due ih => exact ih (work_arrive take add h t)

end

/-- The item of a timer has arrived when its time has come. -/
theorem arrived_advance {q : TimedQueue α} (hs : q.work.shuttingDown = false) {t : Timer α}
    (ht : t ∈ q.timers) {nanos : Nat} (hdue : t.due ≤ q.now + nanos) :
    (q.advance nanos).work.Arrived t.item := by
  have hmem : t ∈ q.dueWithin nanos := by
    rw [dueWithin, List.mem_mergeSort]
    simpa [ht] using hdue
  obtain ⟨before, after, hsplit⟩ := List.append_of_mem hmem
  have takeOpen (w : WorkQueue α) (h : w.shuttingDown = false) : w.take.2.shuttingDown = false := by
    rw [show w.take.2 = w.perform .take from rfl, w.shuttingDown_perform (by simp), h]
  have addOpen (w : WorkQueue α) (x : α) (h : w.shuttingDown = false) :
      (w.add x).shuttingDown = false := by rw [w.shuttingDown_add, h]
  have takeArrived (w : WorkQueue α) (h : w.Arrived t.item) : w.take.2.Arrived t.item :=
    h.perform (a := .take) (by simp)
  have addArrived (w : WorkQueue α) (x : α) (h : w.Arrived t.item) : (w.add x).Arrived t.item :=
    h.perform (a := .add x) (by simp)
  -- Nothing shuts the queue down before the timer fires, and no work is done behind it.
  have hopen : (before.foldl arrive q).work.shuttingDown = false :=
    work_foldl_arrive (P := fun w => w.shuttingDown = false) takeOpen addOpen hs before
  have harrive : ((before.foldl arrive q).arrive t).work.Arrived t.item := by
    refine WaitingQueue.work_settle takeArrived ?_
    show ((before.foldl arrive q).fire t).work.Arrived t.item
    rw [fire, work_add]
    exact WorkQueue.arrived_add hopen t.item
  rw [advance_eq, hsplit, List.foldl_append, List.foldl_cons]
  exact work_foldl_arrive takeArrived addArrived harrive after

end TimedQueue
end DependentWatch
