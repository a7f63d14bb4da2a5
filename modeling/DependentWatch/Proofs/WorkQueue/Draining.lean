import DependentWatch.Proofs.WorkQueue.HandingOut
/-! What becomes of a queue that is shutting down. The items that are dirty then are handed out, each
once, and no other. -/
namespace DependentWatch
variable {α : Type} [DecidableEq α]

namespace WorkQueue

theorem dirty_perform_of_handedOut {q : WorkQueue α} {a : Act α} {x : α}
    (h : .handedOut x ∈ q.marks a) : (q.perform a).dirty = q.dirty.filter (· ≠ x) := by
  obtain ⟨rfl, rest, hq⟩ := handedOut_mem_marks h
  rw [perform, take_cons hq]

/-- Only a hand-out changes what is dirty. -/
theorem dirty_perform_of_closed {q : WorkQueue α} (h : q.shuttingDown = true) {a : Act α}
    (hn : ∀ x, .handedOut x ∉ q.marks a) : (q.perform a).dirty = q.dirty := by
  cases a with
  | add x => rw [perform, add, if_pos (.inl h)]
  | take =>
    cases hq : q.queue with
    | nil => rw [perform, take_nil hq]
    | cons x rest => exact absurd (by simp [marks_take_cons hq]) (hn x)
  | _ => rfl

omit [DecidableEq α] in
theorem handouts_append (log marks : List (Mark α)) :
    handouts (log ++ marks) = handouts log ++ handouts marks :=
  List.filterMap_append

theorem count_handouts_marks (q : WorkQueue α) (a : Act α) (x : α) :
    (handouts (q.marks a)).count x = if .handedOut x ∈ q.marks a then 1 else 0 := by
  cases a with
  | add y =>
    rw [handouts_marks_add, marks]
    split <;> simp
  | take =>
    cases hq : q.queue with
    | nil => simp [marks_take_nil hq, handouts]
    | cons y rest =>
      by_cases hxy : y = x
      · simp [marks_take_cons hq, handouts, Mark.item?, hxy]
      · simp [marks_take_cons hq, handouts, Mark.item?, hxy, Ne.symm hxy]
  | _ => simp [marks, handouts, List.filterMap_cons, Mark.item?]

/-- How a queue drains that was closed while these items were dirty. -/
structure Drains (start : List α) (q : WorkQueue α) (log : List (Mark α)) : Prop where
  orderly : q.Orderly
  closed : q.shuttingDown = true
  mem_start : ∀ x ∈ q.dirty, x ∈ start
  count_handouts (x : α) : (handouts log).count x = if x ∈ start ∧ x ∉ q.dirty then 1 else 0

theorem mem_dirty_of_handedOut {q : WorkQueue α} (h : q.Orderly) {a : Act α} {x : α}
    (hm : .handedOut x ∈ q.marks a) : x ∈ q.dirty := by
  obtain ⟨_, rest, hq⟩ := handedOut_mem_marks hm
  exact ((h.mem_queue_iff x).1 (by simp [hq])).1

theorem mem_dirty_perform_of_closed {q : WorkQueue α} (h : q.shuttingDown = true) (a : Act α)
    (x : α) : x ∈ (q.perform a).dirty ↔ x ∈ q.dirty ∧ .handedOut x ∉ q.marks a := by
  have hentered : .entered x ∉ q.marks a := by simp [entered_mem_marks_iff, h]
  rw [mem_dirty_perform, or_iff_right hentered]

theorem Drains.perform {start : List α} {q : WorkQueue α} {log : List (Mark α)}
    (h : Drains start q log) (a : Act α) (ha : q.Proper a) :
    Drains start (q.perform a) (log ++ q.marks a) where
  orderly := h.orderly.perform a ha
  closed := (q.shuttingDown_perform_iff a).2 (.inl h.closed)
  mem_start x hx := h.mem_start x ((mem_dirty_perform_of_closed h.closed a x).1 hx).1
  count_handouts x := by
    simp only [handouts_append, List.count_append, count_handouts_marks, h.count_handouts,
      mem_dirty_perform_of_closed h.closed]
    by_cases hm : .handedOut x ∈ q.marks a
    · have hd : x ∈ q.dirty := mem_dirty_of_handedOut h.orderly hm
      simp [hm, hd, h.mem_start x hd]
    · simp [hm]

end WorkQueue

namespace TimedQueue
open WorkQueue (handouts)

theorem next_eq_closed_iff (q : WaitingQueue α) (s : Stage α) :
    next q s = .finished .closed ↔
      s = .finished .closed ∨ s.looks ∧ q.work.queue = [] ∧ q.work.shuttingDown = true := by
  cases s with
  | prepared e =>
    simp only [next, Stage.looks, reduceCtorEq, false_or, true_and]
    cases hq : q.work.queue with
    | nil =>
      rw [WorkQueue.take_nil hq]
      cases q.work.shuttingDown <;> simp
    | cons y rest => simp [WorkQueue.take_cons hq]
  | checked e =>
    simp only [next, Stage.looks]
    split <;> simp
  | _ => simp [next, Stage.looks]

/-- A worker comes to its end without an item. -/
def Closes (q : TimedQueue α) (op : Op α) : Prop :=
  ∃ id w w', op = .step id ∧ q.waiting.workers.find? (·.id = id) = some w ∧
    w.stage ≠ .finished .closed ∧
    (q.perform op).waiting.workers.find? (·.id = id) = some w' ∧ w'.stage = .finished .closed

theorem closes_iff (q : TimedQueue α) (op : Op α) :
    q.Closes op ↔ ∃ id, op = .step id ∧ q.waiting.looks id ∧ q.work.queue = [] ∧
      q.work.shuttingDown = true := by
  constructor
  · intro h
    obtain ⟨id, w, w', rfl, hw, hn, hw', hx⟩ := h
    obtain rfl := Option.some.inj ((find_stepId hw).symm.trans hw')
    obtain ⟨hs, hq, hc⟩ := ((next_eq_closed_iff ..).1 hx).resolve_left hn
    exact ⟨id, rfl, by simpa [WaitingQueue.looks, hw] using hs, hq, hc⟩
  · intro h
    obtain ⟨id, rfl, hl, hq, hc⟩ := h
    obtain ⟨w, hw, hs⟩ := (Option.any_eq_true ..).1 hl
    refine ⟨id, w, _, rfl, hw, fun he => ?_, find_stepId hw, ?_⟩
    · simp [he, Stage.looks] at hs
    · exact (next_eq_closed_iff ..).2 (.inr ⟨hs, hq, hc⟩)

theorem gets_step_iff {q : TimedQueue α} {id : Nat} (h : q.waiting.looks id) (x : α) :
    q.Gets (.step id) x ↔ q.work.queue.head? = some x := by
  rw [← handedOut_mem_marks_iff]
  constructor
  · intro hm
    obtain ⟨_, rest, _, _, hq⟩ := handedOut_mem_marks hm
    rw [hq]
    rfl
  · intro hx
    obtain ⟨rest, hq⟩ := List.head?_eq_some_iff.1 hx
    have hm : q.work.marks .take = [.handedOut x] := WorkQueue.marks_take_cons hq
    simp [system, acts, h, System.log, WorkQueue.system, hm]

theorem dirty_perform_of_gets {q : TimedQueue α} {op : Op α} {x : α} (h : q.Gets op x) :
    (q.perform op).work.dirty = q.work.dirty.filter (· ≠ x) := by
  obtain ⟨id, rest, rfl, hl, hq⟩ := handedOut_mem_marks ((handedOut_mem_marks_iff q op x).2 h)
  have hm : .handedOut x ∈ q.work.marks .take := by simp [WorkQueue.marks_take_cons hq]
  rw [work_perform, acts, if_pos hl]
  exact WorkQueue.dirty_perform_of_handedOut hm

theorem dirty_perform_of_closed {q : TimedQueue α} (h : q.work.shuttingDown = true) {op : Op α}
    (hn : ∀ x, ¬ q.Gets op x) : (q.perform op).work.dirty = q.work.dirty := by
  have any : WorkQueue.system.Throughout (fun _ _ => True) q.work (q.acts op) :=
    WorkQueue.system.throughout_of_forall (fun _ _ _ => trivial) q.work
  have hkeep := WorkQueue.system.invariant (l := [])
    (I := fun w log => w.shuttingDown = true ∧
      ((∀ x, .handedOut x ∉ log) → w.dirty = q.work.dirty))
    (fun w log a hi _ => ?_) ⟨h, fun _ => rfl⟩ any
  · rw [work_perform]
    exact hkeep.2 fun x hm => hn x ((handedOut_mem_marks_iff q op x).1 hm)
  · refine ⟨(w.shuttingDown_perform_iff a).2 (.inl hi.1), fun hm => ?_⟩
    simp only [List.mem_append, not_or] at hm
    exact (WorkQueue.dirty_perform_of_closed hi.1 fun x => (hm x).2).trans (hi.2 fun x => (hm x).1)

theorem drains_run {q : TimedQueue α} (ho : q.work.Orderly) {ops : List (Op α)}
    (h : system.Throughout Proper q.shutDown ops) :
    WorkQueue.Drains q.work.dirty (system.run q.shutDown ops).work
      (system.log q.shutDown ops) := by
  have start : WorkQueue.Drains q.work.dirty q.shutDown.work [] :=
    ⟨⟨ho.nodup, ho.mem_queue_iff⟩, rfl, fun _ hx => hx, fun x => by
      simp [shutDown, WaitingQueue.shutDown, WaitingQueue.wakeAll, work, WorkQueue.shutDown,
        handouts]⟩
  exact invariant (fun _ _ => proper_acts) (fun _ _ a hd ha => hd.perform a ha) start h

/-- After the shutdown nothing gets dirty, and only a hand-out changes what is dirty. A worker who
looks at the queue ends without an item if and only if it is empty, and else with the one in front.
As long as only items that are processed get done, each item that is handed out was dirty, an item
that was dirty at the shutdown is handed out once, as it stops to be dirty, and no other is. So when
a worker ends without an item and none is processed, all that were dirty have been handed out. -/
theorem shutdown_hands_out_what_is_dirty (backoff : Backoff) (ops : List (Op α))
    (h : system.Throughout Proper (.empty backoff) ops) (more : List (Op α)) :
    let start := system.run (.empty backoff) ops
    let q := system.run start.shutDown more
    let given := handouts (system.log start.shutDown more)
    (∀ op x, x ∈ (q.perform op).work.dirty → x ∈ q.work.dirty) ∧
    (∀ op x, q.Gets op x → (q.perform op).work.dirty = q.work.dirty.filter (· ≠ x)) ∧
    (∀ op, (∀ x, ¬ q.Gets op x) → (q.perform op).work.dirty = q.work.dirty) ∧
    (∀ id, q.waiting.looks id → (q.Closes (.step id) ↔ q.work.queue = []) ∧
      ∀ x, q.Gets (.step id) x ↔ q.work.queue.head? = some x) ∧
    (system.Throughout Proper start.shutDown more →
      (∀ op x, q.Gets op x → x ∈ q.work.dirty) ∧
      (∀ x, given.count x = if x ∈ start.work.dirty ∧ x ∉ q.work.dirty then 1 else 0) ∧
      (∀ op, q.Closes op → q.work.processing = [] → ∀ x ∈ start.work.dirty, given.count x = 1)) := by
  intro start q given
  have hclosed : q.work.shuttingDown = true :=
    (shuttingDown_run_iff start.shutDown more).2 (.inl rfl)
  refine ⟨fun op x hx => ?_, fun _ _ => dirty_perform_of_gets,
    fun _ => dirty_perform_of_closed hclosed, fun id hl => ⟨?_, gets_step_iff hl⟩, fun hmore => ?_⟩
  · by_cases hg : ∃ y, q.Gets op y
    · obtain ⟨y, hg⟩ := hg
      rw [dirty_perform_of_gets hg] at hx
      exact (List.mem_filter.1 hx).1
    · rwa [dirty_perform_of_closed hclosed fun y hy => hg ⟨y, hy⟩] at hx
  · rw [closes_iff]
    simp [hl, hclosed]
  · have hd : WorkQueue.Drains start.work.dirty q.work (system.log start.shutDown more) :=
      drains_run (regular_run h).orderly hmore
    refine ⟨fun op x hg => ?_, hd.count_handouts, fun op hc hnone x hx => ?_⟩
    · obtain ⟨id, rest, _, _, hq⟩ := handedOut_mem_marks ((handedOut_mem_marks_iff q op x).2 hg)
      exact ((hd.orderly.mem_queue_iff x).1 (by simp [hq])).1
    · obtain ⟨_, _, _, hq, _⟩ := (closes_iff q op).1 hc
      have hout : x ∉ q.work.dirty := by
        intro hm
        have hqueue := (hd.orderly.mem_queue_iff x).2 ⟨hm, by simp [hnone]⟩
        simp [hq] at hqueue
      rw [hd.count_handouts, if_pos ⟨hx, hout⟩]

/-- One item waits at the shutdown, and one was added again while it is processed. -/
theorem shutdown_hands_out_what_is_dirty_readded :
    let ops : List (Op Nat) := [.add 1, .start "a", .step 0, .step 0, .add 1, .add 2]
    let more : List (Op Nat) := [.add 3, .done 1, .start "b", .step 1, .step 1, .retry 2, .done 2,
      .start "c", .step 2, .step 2, .done 1, .start "d", .step 3]
    let start := system.run (.empty .default) ops
    let q := system.run start.shutDown more
    system.Throughout Proper (.empty .default) ops ∧
      system.Throughout Proper start.shutDown more ∧ start.work.dirty = [2, 1] ∧
      q.Closes (.step 3) ∧ q.work.processing = [] ∧
      ∀ x ∈ start.work.dirty, (handouts (system.log start.shutDown more)).count x = 1 := by
  intro ops more start q
  have h : system.Throughout Proper (.empty .default) ops :=
    ⟨trivial, trivial, trivial, trivial, trivial, trivial, trivial⟩
  have hmore : system.Throughout Proper start.shutDown more :=
    ⟨trivial, (by decide : 1 ∈ _), trivial, trivial, trivial, trivial, (by decide : 2 ∈ _), trivial,
      trivial, trivial, (by decide : 1 ∈ _), trivial, trivial, trivial⟩
  have hdrained := shutdown_hands_out_what_is_dirty .default ops h more
  have hcloses : q.Closes (.step 3) := (hdrained.2.2.2.1 3 (by decide)).1.2 (by decide)
  have hnone : q.work.processing = [] := by decide
  exact ⟨h, hmore, by decide, hcloses, hnone, (hdrained.2.2.2.2 hmore).2.2 _ hcloses hnone⟩

end TimedQueue
end DependentWatch
