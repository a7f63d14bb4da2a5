import DependentWatch.Proofs.WorkQueue.Operations
/-! Each item waits once, and is handed out in its turn and to one worker at a time. -/
namespace DependentWatch.TimedQueue
open WorkQueue (handouts)
variable {α : Type} [DecidableEq α]

/-- What a step hands out is at the head of the queue. -/
theorem handedOut_mem_marks {q : TimedQueue α} {op : Op α} {x : α}
    (h : .handedOut x ∈ system.marks q op) :
    ∃ id rest, op = .step id ∧ q.waiting.looks id ∧ q.work.queue = x :: rest := by
  obtain ⟨a, ha, w, hm⟩ := WorkQueue.system.exists_of_mem_log h
  obtain ⟨rfl, _⟩ := WorkQueue.handedOut_mem_marks hm
  obtain ⟨id, rfl, hl⟩ := causedBy_of_mem_acts ha
  have hm : .handedOut x ∈ q.work.marks .take := by
    simpa [System.log, system, acts, hl, WorkQueue.system] using h
  obtain ⟨_, rest, hq⟩ := WorkQueue.handedOut_mem_marks hm
  exact ⟨id, rest, rfl, hl, hq⟩

omit [DecidableEq α] in
theorem find_setStage {q : WaitingQueue α} {id : Nat} {w : Worker α}
    (h : q.workers.find? (·.id = id) = some w) (s : Stage α) :
    (q.setStage id s).workers.find? (·.id = id) = some { w with stage := s } := by
  simp only [WaitingQueue.setStage]
  generalize q.workers = workers at h
  induction workers with
  | nil => simp at h
  | cons v vs ih =>
    by_cases hv : v.id = id
    · obtain rfl : v = w := by simpa [hv] using h
      simp [hv]
    · have h : vs.find? (·.id = id) = some w := by simpa [hv] using h
      simpa [hv] using ih h

/-- The stage to which a worker goes on. -/
def next (q : WaitingQueue α) : Stage α → Stage α
  | .idle => .prepared q.epoch
  | .prepared e =>
    match q.work.take.1 with
    | .pending => .checked e
    | handout => .finished handout
  | .checked e => if q.permit ∨ e ≠ q.epoch then .idle else .parked
  | s => s

theorem find_stepId {q : WaitingQueue α} {id : Nat} {w : Worker α}
    (h : q.workers.find? (·.id = id) = some w) :
    (q.stepId id).workers.find? (·.id = id) = some { w with stage := next q w.stage } := by
  obtain rfl : w.id = id := by simpa using List.find?_some h
  simp only [WaitingQueue.stepId, h, WaitingQueue.step]
  cases hs : w.stage with
  | idle => exact find_setStage h _
  | prepared e =>
    simp only [next]
    cases q.work.take with
    | mk handout work => cases handout <;> exact find_setStage h _
  | checked e =>
    simp only [next]
    by_cases hp : q.permit = true
    · simpa [hp] using find_setStage h .idle
    · by_cases he : e = q.epoch
      · simpa [hp, he] using find_setStage h .parked
      · simpa [hp, he] using find_setStage h .idle
  | parked => simpa [next, ← hs] using h
  | finished o => simpa [next, ← hs] using h

theorem next_eq_item_iff (q : WaitingQueue α) (s : Stage α) (x : α) :
    next q s = .finished (.item x) ↔
      s = .finished (.item x) ∨ s.looks ∧ ∃ rest, q.work.queue = x :: rest := by
  cases s with
  | prepared e =>
    simp only [next, Stage.looks, reduceCtorEq, false_or, true_and]
    cases hq : q.work.queue with
    | nil =>
      rw [WorkQueue.take_nil hq]
      cases q.work.shuttingDown <;> simp
    | cons y rest => simp [WorkQueue.take_cons hq]
  | checked e =>
    simp only [next, Stage.looks]
    split <;> simp
  | _ => simp [next, Stage.looks]

/-- A worker comes to its end with an item. -/
def Gets (q : TimedQueue α) (op : Op α) (x : α) : Prop :=
  ∃ id w w', op = .step id ∧ q.waiting.workers.find? (·.id = id) = some w ∧
    w.stage ≠ .finished (.item x) ∧
    (q.perform op).waiting.workers.find? (·.id = id) = some w' ∧ w'.stage = .finished (.item x)

theorem handedOut_mem_marks_iff (q : TimedQueue α) (op : Op α) (x : α) :
    .handedOut x ∈ system.marks q op ↔ q.Gets op x := by
  constructor
  · intro h
    obtain ⟨id, rest, rfl, hl, hq⟩ := handedOut_mem_marks h
    obtain ⟨w, hw, hs⟩ := (Option.any_eq_true ..).1 hl
    refine ⟨id, w, _, rfl, hw, fun he => ?_, find_stepId hw, ?_⟩
    · simp [he, Stage.looks] at hs
    · exact (next_eq_item_iff ..).2 (.inr ⟨hs, rest, hq⟩)
  · intro h
    obtain ⟨id, w, w', rfl, hw, hn, hw', hx⟩ := h
    obtain rfl := Option.some.inj ((find_stepId hw).symm.trans hw')
    obtain ⟨hs, rest, hq⟩ := ((next_eq_item_iff ..).1 hx).resolve_left hn
    have hl : q.waiting.looks id := by simpa [WaitingQueue.looks, hw] using hs
    have hm : q.work.marks .take = [.handedOut x] := WorkQueue.marks_take_cons hq
    simp [system, acts, hl, System.log, WorkQueue.system, hm]

/-- What a worker gets, nobody else is working on. -/
theorem not_processing_of_gets {q : TimedQueue α} (ho : q.work.Orderly) {op : Op α} {x : α}
    (h : q.Gets op x) : x ∉ q.work.processing := by
  obtain ⟨id, rest, _, _, hq⟩ := handedOut_mem_marks ((handedOut_mem_marks_iff q op x).2 h)
  exact ((ho.mem_queue_iff x).1 (by simp [hq])).2

theorem mem_queue_done (q : TimedQueue α) {x : α} (h : x ∈ q.work.dirty) :
    x ∈ (q.perform (.done x)).work.queue := by
  rw [show (q.perform (.done x)).work = q.work.done x from WaitingQueue.work_done q.waiting x]
  simp [WorkQueue.done, h]

/-- The queue holds the dirty items that are not being processed, each once, and the dirty items
are those that entered since they were handed out the last time. An item enters by an operation that
adds it before the shutdown. So what a worker gets is not being processed; between two times it is
done and enters again; if it enters while it is processed, it is queued when that is done; and the
item at a place of the queue is what is handed out as many times later. -/
theorem queue_holds_waiting_items (backoff : Backoff) (ops : List (Op α))
    (h : system.Throughout Proper (.empty backoff) ops) :
    let q := system.run (.empty backoff) ops
    let log := system.log (.empty backoff) ops
    q.work.queue.Nodup ∧
    (∀ x, x ∈ q.work.queue ↔ x ∈ q.work.dirty ∧ x ∉ q.work.processing) ∧
    (∀ x, x ∈ q.work.dirty ↔ Since (.entered x) (.handedOut x) log) ∧
    (q.work.shuttingDown = true ↔ .shutDown ∈ ops) ∧
    (∀ op x, .entered x ∈ system.marks q op ↔ q.Adds x op ∧ .shutDown ∉ ops) ∧
    (∀ op x, .handedOut x ∈ system.marks q op ↔ q.Gets op x) ∧
    (∀ op x, q.Gets op x → x ∉ q.work.processing) ∧
    (∀ x before between after,
      log = before ++ .handedOut x :: between ++ .handedOut x :: after →
      .done x ∈ between ∧ .entered x ∈ between) ∧
    (∀ x before after, log = before ++ .handedOut x :: after → .handedOut x ∉ after →
      .entered x ∈ after → x ∈ (q.perform (.done x)).work.queue) ∧
    (∀ more k x, q.work.queue[k]? = some x → k < (handouts (system.log q more)).length →
      (handouts (system.log q more))[k]? = some x ∧ x ∉ (handouts (system.log q more)).take k) := by
  intro q log
  have hr : WorkQueue.Regular q.work log := regular_run h
  have hclosed : q.work.shuttingDown = true ↔ .shutDown ∈ ops :=
    shuttingDown_empty_run_iff backoff ops
  refine ⟨hr.orderly.nodup, hr.orderly.mem_queue_iff, hr.tracked.mem_dirty_iff, hclosed, ?_,
    q.handedOut_mem_marks_iff, fun _ _ => not_processing_of_gets hr.orderly, ?_, ?_, ?_⟩
  · intro op x
    rw [entered_mem_marks_iff, ← hclosed, Bool.not_eq_true]
  · intro x before between after hl
    exact WorkQueue.Regular.between (hl ▸ hr)
  · intro x before after hl hn he
    obtain ⟨l, r, rfl⟩ := List.append_of_mem he
    refine q.mem_queue_done ((hr.tracked.mem_dirty_iff x).2 ⟨before ++ .handedOut x :: l, r, ?_, ?_⟩)
    · simp [hl]
    · exact fun hm => hn (by simp [hm])
  · intro more k x hx hk
    exact (q.feeds_run more).place hr.orderly.nodup hx hk

/-- Two items are handed out, one of them is added again, and after the shutdown come a third one
and the end of the work. -/
theorem queue_holds_waiting_items_readded :
    let ops : List (Op Nat) := [.add 1, .add 2, .start "a", .step 0, .step 0, .add 1, .start "b",
      .step 1, .step 1, .shutDown, .add 3, .add 2, .done 1]
    let q := system.run (.empty .default) ops
    let log := system.log (.empty .default) ops
    system.Throughout Proper (.empty .default) ops ∧ q.work.shuttingDown = true ∧
      q.work.queue = [1] ∧ q.work.queue.Nodup ∧
      (∀ x, x ∈ q.work.queue ↔ x ∈ q.work.dirty ∧ x ∉ q.work.processing) ∧
      3 ∉ q.work.dirty ∧ ¬ Since (.entered 3) (.handedOut 3) log ∧
      q.Adds 3 (.add 3) ∧ .entered 3 ∉ system.marks q (.add 3) := by
  intro ops q log
  have h : system.Throughout Proper (.empty .default) ops :=
    ⟨trivial, trivial, trivial, trivial, trivial, trivial, trivial, trivial, trivial, trivial,
      trivial, trivial, (by decide : 1 ∈ _), trivial⟩
  obtain ⟨hnodup, hqueue, hdirty, hclosed, hentered, _⟩ := queue_holds_waiting_items .default ops h
  have hdown : .shutDown ∈ ops := by simp [ops]
  have hout : 3 ∉ q.work.dirty := by decide
  exact ⟨h, hclosed.2 hdown, by decide, hnodup, hqueue, hout, fun hs => hout ((hdirty 3).2 hs), rfl,
    fun hm => ((hentered (.add 3) 3).1 hm).2 hdown⟩

end DependentWatch.TimedQueue
