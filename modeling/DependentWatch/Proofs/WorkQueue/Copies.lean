import DependentWatch.Proofs.WorkQueue.HandingOut
/-! Copies of an item in the queue. An item gets a second copy when it is done while it waits, and
in no other way. -/
namespace DependentWatch
variable {α : Type} [DecidableEq α]

namespace WorkQueue

/-- The item was added and is not being processed, so it has to be in the queue. -/
def Waits (q : WorkQueue α) (x : α) : Prop := x ∈ q.dirty ∧ x ∉ q.processing

instance (q : WorkQueue α) (x : α) : Decidable (q.Waits x) :=
  inferInstanceAs (Decidable (x ∈ q.dirty ∧ x ∉ q.processing))

/-- How many copies of an item there have to be. -/
def due (x : α) (q : WorkQueue α) : Nat := if q.Waits x then 1 else 0

/-- The item is done while it waits. -/
def doubles (x : α) (q : WorkQueue α) : Act α → Nat
  | .done y => if y = x then q.due x else 0
  | _ => 0

/-- The item is handed out while it does not wait. -/
def repeats (x : α) (q : WorkQueue α) (a : Act α) : Nat :=
  if .handedOut x ∈ q.marks a then 1 - q.due x else 0

theorem due_le_one (q : WorkQueue α) (x : α) : q.due x ≤ 1 := by
  unfold due
  split <;> omega

theorem due_congr {q r : WorkQueue α} {x : α} (h : q.Waits x ↔ r.Waits x) :
    q.due x = r.due x := by
  simp only [due, h]

theorem repeats_of_not_mem {x : α} {q : WorkQueue α} {a : Act α} (h : .handedOut x ∉ q.marks a) :
    q.repeats x a = 0 :=
  if_neg h

theorem copies_add (x y : α) (q : WorkQueue α) :
    (q.add y).queue.count x + q.due x = q.queue.count x + (q.add y).due x := by
  unfold add
  split
  · rfl
  · next h =>
    have hd : y ∉ q.dirty := fun hd => h (.inr hd)
    by_cases hxy : y = x
    · subst hxy
      by_cases hp : y ∈ q.processing
      · simp [hp, due, Waits]
      · simp [hp, due, Waits, hd]
    · have hdue (queue : List α) :
          due x { q with dirty := y :: q.dirty, queue } = q.due x :=
        due_congr (by simp [Waits, Ne.symm hxy])
      split
      · exact congrArg _ (hdue q.queue).symm
      · simp [hdue, hxy]

theorem copies_take (x : α) (q : WorkQueue α) :
    q.take.2.queue.count x + q.due x + q.repeats x .take =
      q.queue.count x + q.take.2.due x := by
  cases hq : q.queue with
  | nil => simp [repeats, marks_take_nil hq, take_nil hq, hq]
  | cons y rest =>
    simp only [repeats, marks_take_cons hq, take_cons hq]
    have hle := q.due_le_one x
    by_cases hxy : x = y
    · subst hxy
      simp [due, Waits] at hle ⊢
      omega
    · simp only [List.mem_singleton, Mark.handedOut.injEq, hxy, if_false, Nat.add_zero,
        List.count_cons_of_ne (Ne.symm hxy)]
      exact congrArg _ (due_congr (by simp [Waits, hxy]))

theorem copies_done (x y : α) (q : WorkQueue α) :
    (q.done y).queue.count x + q.due x =
      q.queue.count x + (q.done y).due x + q.doubles x (.done y) := by
  by_cases hxy : y = x
  · subst hxy
    by_cases hd : y ∈ q.dirty
    · simp [done, doubles, due, Waits, hd]
    · simp [done, doubles, due, Waits, hd]
  · have hdue : (q.done y).due x = q.due x := due_congr (by simp [done, Waits, Ne.symm hxy])
    have hcount : (q.done y).queue.count x = q.queue.count x := by
      by_cases hd : y ∈ q.dirty <;> simp [done, hd, hxy]
    simp [hdue, hcount, doubles, hxy]

/-- An act that brings a copy too many is the end of work on an item that waits, and an act that
takes one away hands out an item that does not. -/
theorem copies_perform (x : α) (q : WorkQueue α) (a : Act α) :
    (q.perform a).queue.count x + q.due x + q.repeats x a =
      q.queue.count x + (q.perform a).due x + q.doubles x a := by
  cases a with
  | add y =>
    have hm : .handedOut x ∉ q.marks (.add y) := by
      simp only [marks]
      split <;> simp
    rw [repeats_of_not_mem hm]
    exact q.copies_add x y
  | take => exact q.copies_take x
  | done y =>
    rw [repeats_of_not_mem (by simp [marks])]
    exact q.copies_done x y
  | _ => rw [repeats_of_not_mem (by simp [marks])]; rfl

/-- Only an item that does not wait in the queue gets done. -/
def Settled (q : WorkQueue α) : Act α → Prop
  | .done x => x ∉ q.queue
  | _ => True

/-- The end of work on an item that is neither queued nor processed changes nothing. -/
theorem Orderly.done_of_not_mem {q : WorkQueue α} (h : Orderly q) {x : α} (hx : x ∉ q.queue) :
    Orderly (q.done x) := by
  by_cases hp : x ∈ q.processing
  · exact h.done hp
  · have hd : x ∉ q.dirty := fun hd => hx ((h.mem_queue_iff x).2 ⟨hd, hp⟩)
    have hfilter : q.processing.filter (· ≠ x) = q.processing :=
      List.filter_eq_self.2 fun y hy => decide_eq_true fun he => hp (he ▸ hy)
    have hsame : q.done x = q := by rw [WorkQueue.done, if_neg hd, hfilter]
    rwa [hsame]

theorem Orderly.perform_of_settled {q : WorkQueue α} (h : Orderly q) {a : Act α}
    (ha : q.Settled a) : Orderly (q.perform a) := by
  cases a with
  | done x => exact h.done_of_not_mem ha
  | _ => exact h.perform _ trivial

/-- The end of work on an item that waits puts it into the queue once more. -/
theorem Orderly.not_nodup_done {q : WorkQueue α} (h : Orderly q) {x : α} (hx : x ∈ q.queue) :
    ¬ (q.done x).queue.Nodup := by
  have hd : x ∈ q.dirty := ((h.mem_queue_iff x).1 hx).1
  intro hn
  have hn : (q.queue ++ [x]).Nodup := by simpa [WorkQueue.done, hd] using hn
  exact (List.nodup_append.1 hn).2.2 x hx x (by simp) rfl

end WorkQueue

namespace TimedQueue

/-- Only an item that does not wait in the queue gets done. -/
def Settled (q : TimedQueue α) : Op α → Prop
  | .done x => x ∉ q.work.queue
  | _ => True

/-- The item is done while it waits. -/
def doubles (x : α) (q : TimedQueue α) : Op α → Nat
  | .done y => if y = x then q.work.due x else 0
  | _ => 0

/-- The item is handed out while it does not wait. -/
def repeats (x : α) (q : TimedQueue α) (op : Op α) : Nat :=
  if .handedOut x ∈ system.marks q op then 1 - q.work.due x else 0

theorem total_doubles_acts (x : α) (q : TimedQueue α) (op : Op α) :
    WorkQueue.system.total (WorkQueue.doubles x) q.work (q.acts op) = q.doubles x op := by
  cases op with
  | addAfter y d => simp only [acts]; split <;> rfl
  | retry y => simp only [acts]; split <;> rfl
  | offer y => simp only [acts]; split <;> rfl
  | step id => simp only [acts]; split <;> rfl
  | _ => rfl

theorem total_repeats_acts (x : α) (q : TimedQueue α) (op : Op α) :
    WorkQueue.system.total (WorkQueue.repeats x) q.work (q.acts op) = q.repeats x op := by
  by_cases hop : ∃ id, op = .step id
  · obtain ⟨id, rfl⟩ := hop
    simp only [acts, repeats, system]
    split
    · simp [System.total, System.log, WorkQueue.repeats, WorkQueue.system]
    · rfl
  · have hnone : .handedOut x ∉ system.marks q op := by
      intro hm
      obtain ⟨id, _, rfl, _⟩ := handedOut_mem_marks hm
      exact hop ⟨id, rfl⟩
    rw [repeats, if_neg hnone]
    refine WorkQueue.system.total_eq_zero (fun a ha w => ?_) q.work
    refine WorkQueue.repeats_of_not_mem fun hm => ?_
    obtain ⟨rfl, _⟩ := WorkQueue.handedOut_mem_marks hm
    obtain ⟨id, rfl, _⟩ := causedBy_of_mem_acts ha
    exact hop ⟨id, rfl⟩

theorem copies_perform (x : α) (q : TimedQueue α) (op : Op α) :
    (q.perform op).work.queue.count x + q.work.due x + q.repeats x op =
      q.work.queue.count x + (q.perform op).work.due x + q.doubles x op := by
  have h := WorkQueue.system.balance (u := fun w => w.queue.count x) (v := WorkQueue.due x)
    (WorkQueue.copies_perform x) q.work (q.acts op)
  rwa [total_doubles_acts, total_repeats_acts, ← work_perform] at h

theorem copies_run (x : α) (q : TimedQueue α) (ops : List (Op α)) :
    (system.run q ops).work.queue.count x + q.work.due x + system.total (repeats x) q ops =
      q.work.queue.count x + (system.run q ops).work.due x + system.total (doubles x) q ops :=
  system.balance (u := fun q => q.work.queue.count x) (v := fun q => q.work.due x)
    (copies_perform x) q ops

theorem orderly_perform {q : TimedQueue α} (h : q.work.Orderly) {op : Op α} (hop : q.Settled op) :
    (q.perform op).work.Orderly := by
  rw [work_perform]
  refine WorkQueue.system.invariant (A := WorkQueue.Settled) (I := fun w _ => w.Orderly) (l := [])
    (fun _ _ _ hw ha => hw.perform_of_settled ha) h (throughout_acts (fun w a ha => ?_) fun x hx => ?_)
  · cases a with
    | done x => exact absurd rfl (ha x)
    | _ => trivial
  · subst hx
    exact hop

theorem settled_of_nodup {q : TimedQueue α} (h : q.work.Orderly) {op : Op α}
    (hn : (q.perform op).work.queue.Nodup) : q.Settled op := by
  cases op with
  | done x =>
    intro hx
    rw [perform, show (q.done x).work = q.work.done x from WaitingQueue.work_done q.waiting x] at hn
    exact h.not_nodup_done hx hn
  | _ => trivial

theorem settled_of_forall_nodup {q : TimedQueue α} (h : q.work.Orderly) {ops : List (Op α)}
    (hn : ∀ n, (system.run q (ops.take n)).work.queue.Nodup) : system.Throughout Settled q ops := by
  induction ops generalizing q with
  | nil => trivial
  | cons op ops ih =>
    have hop : q.Settled op := settled_of_nodup h (hn 1)
    exact ⟨hop, ih (orderly_perform h hop) fun n => hn (n + 1)⟩

theorem orderly_run_take {q : TimedQueue α} (h : q.work.Orderly) {ops : List (Op α)}
    (hs : system.Throughout Settled q ops) (n : Nat) :
    (system.run q (ops.take n)).work.Orderly := by
  induction ops generalizing q n with
  | nil =>
    rw [List.take_nil]
    exact h
  | cons op ops ih =>
    cases n with
    | zero => exact h
    | succ n => exact ih (orderly_perform h hs.1) hs.2 n

/-- Whatever gets done, an item has no second copy at any time if and only if no item gets done
while it waits in the queue, and then no worker gets an item that is being processed. In every run
an item has one copy if it waits, and one more for each time it got done while it waited, but for
those that were handed out while it did not. -/
theorem copies_come_from_waiting_items (backoff : Backoff) (ops : List (Op α)) :
    let start : TimedQueue α := .empty backoff
    let q := system.run start ops
    ((∀ n, (system.run start (ops.take n)).work.queue.Nodup) ↔
      system.Throughout Settled start ops) ∧
    (system.Throughout Settled start ops → ∀ n op x, (system.run start (ops.take n)).Gets op x →
      x ∉ (system.run start (ops.take n)).work.processing) ∧
    (∀ x, q.work.queue.count x + system.total (repeats x) start ops =
      (if x ∈ q.work.dirty ∧ x ∉ q.work.processing then 1 else 0) +
        system.total (doubles x) start ops) := by
  intro start q
  have horderly : start.work.Orderly := WorkQueue.orderly_empty
  refine ⟨⟨settled_of_forall_nodup horderly, fun hs n => ?_⟩, fun hs n op x hg => ?_, fun x => ?_⟩
  · exact (orderly_run_take horderly hs n).nodup
  · exact not_processing_of_gets (orderly_run_take horderly hs n) hg
  · have hcopies := copies_run x start ops
    have hcount : start.work.queue.count x = 0 := rfl
    have hdue : start.work.due x = 0 := if_neg fun h => List.not_mem_nil h.1
    rw [hcount, hdue, Nat.zero_add, Nat.add_zero] at hcopies
    exact hcopies

/-- Items that are not queued get done: one that was never added, and one that got done before. -/
theorem copies_come_from_waiting_items_idle :
    let ops : List (Op Nat) := [.add 1, .done 2, .start "a", .step 0, .step 0, .done 1, .done 1]
    system.Throughout Settled (.empty .default) ops ∧
      ∀ n, (system.run (.empty .default) (ops.take n)).work.queue.Nodup := by
  intro ops
  have h : system.Throughout Settled (.empty .default) ops :=
    ⟨trivial, (by decide : 2 ∉ _), trivial, trivial, trivial, (by decide : 1 ∉ _),
      (by decide : 1 ∉ _), trivial⟩
  exact ⟨h, (copies_come_from_waiting_items .default ops).1.2 h⟩

/-- An item that waits gets done, and a second worker gets it while the first one works on it. -/
theorem waiting_item_doubled :
    let doubled : TimedQueue Nat := system.run (.empty .default) [.add 1, .done 1]
    let taken := system.run doubled [.start "a", .step 0, .step 0, .start "b", .step 1]
    doubled.work.queue = [1, 1] ∧ 1 ∈ taken.work.processing ∧ taken.Gets (.step 1) 1 := by
  intro doubled taken
  exact ⟨by decide, by decide, (handedOut_mem_marks_iff taken (.step 1) 1).1 (by decide)⟩

end TimedQueue
end DependentWatch
