import DependentWatch.Proofs.WorkQueue.Arrivals
import DependentWatch.Proofs.WorkQueue.Delays
import Mathlib.Data.List.Induction
/-! How often a retry of an item was asked for, and how long the next one waits. The history of the
item alone decides both. -/
namespace DependentWatch.TimedQueue
variable {α : Type} [DecidableEq α]

def Op.retries (x : α) : Op α → Bool
  | .retry y => y = x
  | _ => false

def Op.forgets (x : α) : Op α → Bool
  | .forget y => y = x
  | _ => false

theorem Op.retries_iff {op : Op α} {x : α} : op.retries x = true ↔ op = .retry x := by
  cases op <;> simp [Op.retries]

theorem Op.forgets_iff {op : Op α} {x : α} : op.forgets x = true ↔ op = .forget x := by
  cases op <;> simp [Op.forgets]

/-- How many retries of an item were asked for since it was forgotten the last time. -/
def retriesSince (x : α) (ops : List (Op α)) : Nat :=
  (behindLast (Op.forgets x) ops).countP (Op.retries x)

theorem retriesSince_concat (x : α) (ops : List (Op α)) (op : Op α) :
    retriesSince x (ops ++ [op]) =
      if op.forgets x then 0 else retriesSince x ops + if op.retries x then 1 else 0 := by
  unfold retriesSince
  rw [behindLast_concat]
  split
  · rfl
  · rw [List.countP_append, List.countP_singleton]

theorem retriesSince_le (x : α) (ops : List (Op α)) :
    retriesSince x ops ≤ ops.countP (Op.retries x) :=
  (behindLast_suffix _ ops).sublist.countP_le

/-! The counter of the queue. -/

theorem retryCount_addAfter (q : TimedQueue α) (x y : α) (d : Duration) :
    (q.addAfter y d).work.retryCount x = q.work.retryCount x := by
  rw [work_addAfter]
  split
  · exact q.work.retryCount_add y x
  · rfl

/-- No operation but a retry of the item and its being forgotten touches the counter. -/
theorem retryCount_perform_of_other {q : TimedQueue α} {op : Op α} {x : α} (hr : op ≠ .retry x)
    (hf : op ≠ .forget x) : (q.perform op).work.retryCount x = q.work.retryCount x := by
  have other : WorkQueue.system.Throughout (fun _ a => a ≠ .countRetry x ∧ a ≠ .forget x) q.work
      (q.acts op) := by
    refine WorkQueue.system.throughout_of_forall (fun a ha _ => ⟨fun he => hr ?_, fun he => hf ?_⟩) _
    · exact (he ▸ causedBy_of_mem_acts ha : q.CausedBy op (.countRetry x))
    · exact (he ▸ causedBy_of_mem_acts ha : q.CausedBy op (.forget x))
  rw [work_perform]
  exact WorkQueue.system.invariant (I := fun w _ => w.retryCount x = q.work.retryCount x) (l := [])
    (fun _ _ _ hw ha => (WorkQueue.retryCount_perform_of_other ha.1 ha.2).trans hw) rfl other

/-- What an operation does to the counter of an item. -/
theorem retryCount_perform (q : TimedQueue α) (op : Op α) (x : α) :
    (q.perform op).work.retryCount x =
      if op.forgets x then 0
      else (q.work.retryCount x + if op.retries x then 1 else 0) % UInt32.size := by
  by_cases hf : op = .forget x
  · subst hf
    have hcount : (q.forget x).work.retryCount x = (q.work.forget x).retryCount x := rfl
    simp [perform, hcount, WorkQueue.retryCount_forget, Op.forgets]
  · by_cases hr : op = .retry x
    · subst hr
      have hcount : (q.retry x).work.retryCount x = (q.work.countRetry x).retryCount x :=
        retryCount_addAfter _ x x _
      simp [perform, hcount, WorkQueue.retryCount_countRetry, Op.forgets, Op.retries]
    · rw [retryCount_perform_of_other hr hf, if_neg (mt Op.forgets_iff.1 hf),
        if_neg (mt Op.retries_iff.1 hr)]
      exact (Nat.mod_eq_of_lt (q.work.retryCount_lt x)).symm

/-- The counter tells the retries since the last time the item was forgotten, in 32 bits. -/
theorem retryCount_run (backoff : Backoff) (ops : List (Op α)) (x : α) :
    (system.run (.empty backoff) ops).work.retryCount x = retriesSince x ops % UInt32.size := by
  induction ops using List.reverseRecOn with
  | nil => rfl
  | append_singleton ops op ih =>
    have hstep := retryCount_perform (system.run (.empty backoff) ops) op x
    rw [System.run_append, retriesSince_concat]
    refine hstep.trans ?_
    rw [ih]
    split
    · rfl
    · rw [Nat.mod_add_mod]

/-! The delay of a retry. -/

theorem backoff_perform (q : TimedQueue α) (op : Op α) : (q.perform op).backoff = q.backoff := by
  have hadd (q : TimedQueue α) (x : α) (d : Duration) : (q.addAfter x d).backoff = q.backoff := by
    unfold addAfter
    split <;> rfl
  cases op with
  | addAfter x d => exact hadd q x d
  | retry x => exact hadd _ x _
  | offer x =>
    show (q.offer x).backoff = q.backoff
    unfold offer
    split <;> rfl
  | _ => rfl

theorem backoff_run (q : TimedQueue α) (ops : List (Op α)) :
    (system.run q ops).backoff = q.backoff := by
  induction ops generalizing q with
  | nil => rfl
  | cons op ops ih => exact (ih (q.perform op)).trans (q.backoff_perform op)

/-- The queue with one more retry counted. -/
def counted (q : TimedQueue α) (x : α) : TimedQueue α :=
  { q with waiting := { q.waiting with work := q.work.countRetry x } }

theorem retry_of_eq_zero {q : TimedQueue α} {x : α}
    (h : (q.backoff.delay (q.work.retryCount x)).nanos = 0) : q.retry x = (q.counted x).add x :=
  if_pos h

/-- The timer of a retry. -/
def retryTimer (q : TimedQueue α) (x : α) : Timer α :=
  ⟨q.now + (q.backoff.delay (q.work.retryCount x)).nanos, x⟩

theorem retry_of_pos {q : TimedQueue α} {x : α}
    (h : 0 < (q.backoff.delay (q.work.retryCount x)).nanos) :
    q.retry x = { q.counted x with timers := q.timers ++ [q.retryTimer x] } :=
  if_neg (Nat.ne_of_gt h)

/-- The timer of a retry runs until just its delay has passed. -/
theorem retryTimer_mem_advance_iff {q : TimedQueue α} {x : α}
    (h : 0 < (q.backoff.delay (q.work.retryCount x)).nanos) (nanos : Nat) :
    q.retryTimer x ∈ ((q.retry x).advance nanos).timers ↔
      nanos < (q.backoff.delay (q.work.retryCount x)).nanos := by
  have hmem : q.retryTimer x ∈ (q.retry x).timers := by rw [retry_of_pos h]; simp
  have hnow : (q.retry x).now = q.now := by rw [retry_of_pos h]; rfl
  rw [timers_advance, List.mem_filter, hnow, decide_eq_true_eq, and_iff_right hmem]
  exact Nat.add_lt_add_iff_left

theorem arrived_retry {q : TimedQueue α} {x : α} (hs : q.work.shuttingDown = false)
    (h : 0 < (q.backoff.delay (q.work.retryCount x)).nanos) {nanos : Nat}
    (hn : (q.backoff.delay (q.work.retryCount x)).nanos ≤ nanos) :
    ((q.retry x).advance nanos).work.Arrived x := by
  have hmem : q.retryTimer x ∈ (q.retry x).timers := by rw [retry_of_pos h]; simp
  have hnow : (q.retry x).now = q.now := by rw [retry_of_pos h]; rfl
  have hopen : (q.retry x).work.shuttingDown = false := by
    rw [retry_of_pos h]
    exact hs
  have hdue : (q.retryTimer x).due ≤ (q.retry x).now + nanos := by
    rw [hnow]
    exact Nat.add_le_add_left hn q.now
  exact arrived_advance hopen hmem hdue

/-- With fewer retries than the counter has numbers, the counter of an item is the number of its
retries since it was forgotten, and no operation but these two changes it. The next retry waits for
the delay of that number: at once if that is nothing, and otherwise until just so much time has
passed. With more retries the delay gets no shorter, and it stays between the base and the bound. -/
theorem retries_wait_by_their_history (backoff : Backoff) (ops : List (Op α))
    (h : ∀ x, ops.countP (Op.retries x) < UInt32.size) :
    let q := system.run (.empty backoff) ops
    (∀ x, q.work.retryCount x = retriesSince x ops) ∧
    (∀ op x, op.retries x = false → op.forgets x = false →
      (q.perform op).work.retryCount x = q.work.retryCount x) ∧
    (∀ x,
      let delay := (backoff.delay (retriesSince x ops)).nanos
      (delay = 0 → q.retry x = (q.counted x).add x) ∧
      (0 < delay →
        q.retry x = { q.counted x with timers := q.timers ++ [⟨q.now + delay, x⟩] } ∧
        (∀ nanos, ⟨q.now + delay, x⟩ ∈ ((q.retry x).advance nanos).timers ↔ nanos < delay) ∧
        (q.work.shuttingDown = false → ∀ nanos, delay ≤ nanos →
          ((q.retry x).advance nanos).work.Arrived x))) ∧
    (∀ b : Backoff, b.base.nanos ≤ b.max.nanos → ∀ k,
      b.base.nanos ≤ (b.delay k).nanos ∧ (b.delay k).nanos ≤ b.max.nanos ∧
      ∀ l, k ≤ l → (b.delay k).nanos ≤ (b.delay l).nanos) := by
  intro q
  have hcounts (x : α) : q.work.retryCount x = retriesSince x ops := by
    have hlt : retriesSince x ops < UInt32.size := Nat.lt_of_le_of_lt (retriesSince_le x ops) (h x)
    rw [retryCount_run, Nat.mod_eq_of_lt hlt]
  refine ⟨hcounts, ?_, ?_, ?_⟩
  · intro op x hr hf
    rw [← Bool.not_eq_true, Op.retries_iff] at hr
    rw [← Bool.not_eq_true, Op.forgets_iff] at hf
    exact retryCount_perform_of_other hr hf
  · intro x
    have hcount := hcounts x
    have hbackoff : q.backoff = backoff := backoff_run _ ops
    clear_value q
    rw [← hcount, ← hbackoff]
    refine ⟨retry_of_eq_zero, fun hpos => ⟨retry_of_pos hpos, ?_, ?_⟩⟩
    · exact retryTimer_mem_advance_iff hpos
    · intro hs nanos hn
      exact arrived_retry hs hpos hn
  · intro b hb k
    exact ⟨b.base_le_delay hb k, b.delay_le_max k, fun l hl => b.delay_mono hl⟩

theorem retries_wait_by_their_history_mixed :
    let ops : List (Op Nat) :=
      [.retry 1, .retry 2, .retry 1, .fire ⟨5000000, 1⟩, .forget 2, .retry 1, .retry 2]
    let q := system.run (.empty .default) ops
    (∀ x, ops.countP (Op.retries x) < UInt32.size) ∧
      q.work.retryCount 1 = retriesSince 1 ops ∧ retriesSince 1 ops = 3 ∧ retriesSince 2 ops = 1 ∧
      ∀ nanos, ⟨q.now + 40000000, 1⟩ ∈ ((q.retry 1).advance nanos).timers ↔ nanos < 40000000 := by
  intro ops q
  have h (x : Nat) : ops.countP (Op.retries x) < UInt32.size :=
    Nat.lt_of_le_of_lt List.countP_le_length (by decide)
  have hq := retries_wait_by_their_history .default ops h
  exact ⟨h, hq.1 1, by decide, by decide, ((hq.2.2.1 1).2 (by decide)).2.1⟩

end DependentWatch.TimedQueue
