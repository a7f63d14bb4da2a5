import DependentWatch.Proofs.WorkQueue.Operations
import DependentWatch.WorkQueue.Sink
/-! Events pass by the requests that have a retry. The count of the retries tells that one was asked
for, and not that it is still to come. -/
namespace DependentWatch.TimedQueue
open WorkQueue (Mark)
variable {α : Type} [DecidableEq α]

/-- An item is on its way: it is dirty, or will be when its timer fires. -/
def Outstanding (q : TimedQueue α) (x : α) : Prop := x ∈ q.work.dirty ∨ ∃ t ∈ q.timers, t.item = x

instance (q : TimedQueue α) (x : α) : Decidable (q.Outstanding x) :=
  inferInstanceAs (Decidable (x ∈ q.work.dirty ∨ ∃ t ∈ q.timers, t.item = x))

theorem not_shuttingDown_run {q : TimedQueue α} (hq : q.work.shuttingDown = false)
    {ops : List (Op α)} (h : .shutDown ∉ ops) :
    (system.run q ops).work.shuttingDown = false := by
  rw [← Bool.not_eq_true, shuttingDown_run_iff, hq]
  exact not_or_intro Bool.false_ne_true h

theorem mem_dirty_add {q : TimedQueue α} (hq : q.work.shuttingDown = false) (x y : α) :
    y ∈ (q.add x).work.dirty ↔ y = x ∨ y ∈ q.work.dirty := by
  rw [work_add, show q.work.add x = q.work.perform (.add x) from rfl, WorkQueue.mem_dirty_perform]
  simp [WorkQueue.marks, hq]

/-! The retries of a run: each stays on its way until it is handed out. -/

theorem mem_dirty_perform {q : TimedQueue α} {op : Op α} {x : α} (hx : x ∈ q.work.dirty)
    (h : .handedOut x ∉ system.marks q op) : x ∈ (q.perform op).work.dirty := by
  have any : WorkQueue.system.Throughout (fun _ _ => True) q.work (q.acts op) :=
    WorkQueue.system.throughout_of_forall (fun _ _ _ => trivial) q.work
  have := WorkQueue.system.invariant (I := fun w log => .handedOut x ∉ log → x ∈ w.dirty) (l := [])
    (fun w log a hi _ hn => ?_) (fun _ => hx) any h
  · rwa [work_perform]
  · rw [List.mem_append, not_or] at hn
    exact (w.mem_dirty_perform a x).2 (.inr ⟨hi hn.1, hn.2⟩)

theorem timers_add (q : TimedQueue α) (x : α) : (q.add x).timers = q.timers := rfl

theorem mem_timers_addAfter {q : TimedQueue α} {t : Timer α} (x : α) (d : Duration)
    (h : t ∈ q.timers) : t ∈ (q.addAfter x d).timers := by
  unfold addAfter
  split
  · exact h
  · exact List.mem_append_left _ h

/-- A timer stays until it fires. -/
theorem mem_timers_perform {q : TimedQueue α} {op : Op α} {t : Timer α} (h : t ∈ q.timers)
    (hop : op ≠ .fire t) : t ∈ (q.perform op).timers := by
  cases op with
  | addAfter x d => exact mem_timers_addAfter x d h
  | retry x => exact mem_timers_addAfter x _ h
  | offer x =>
    simp only [perform, offer]
    split <;> exact h
  | fire u => exact (List.mem_erase_of_ne fun he => hop (congrArg Op.fire he.symm)).2 h
  | _ => exact h

theorem Outstanding.perform {q : TimedQueue α} (hq : q.work.shuttingDown = false) {op : Op α}
    {x : α} (h : q.Outstanding x) (hn : .handedOut x ∉ system.marks q op) :
    (q.perform op).Outstanding x := by
  obtain hx | ⟨t, ht, rfl⟩ := h
  · exact .inl (mem_dirty_perform hx hn)
  · by_cases hop : op = .fire t
    · obtain rfl := hop
      exact .inl ((mem_dirty_add hq t.item t.item).2 (.inl rfl))
    · exact .inr ⟨t, mem_timers_perform ht hop, rfl⟩

theorem outstanding_addAfter {q : TimedQueue α} (hq : q.work.shuttingDown = false) (x : α)
    (d : Duration) : (q.addAfter x d).Outstanding x := by
  unfold addAfter
  split
  · exact .inl ((mem_dirty_add hq x x).2 (.inl rfl))
  · exact .inr ⟨⟨q.now + d.nanos, x⟩, by simp, rfl⟩

theorem outstanding_retry {q : TimedQueue α} (hq : q.work.shuttingDown = false) (x : α) :
    (q.retry x).Outstanding x := by
  let counted := { q with waiting := { q.waiting with work := q.work.countRetry x } }
  have hs : counted.work.shuttingDown = false := hq
  exact outstanding_addAfter hs x _

theorem retry_of_retried {q : TimedQueue α} {op : Op α} {x : α}
    (h : .retried x ∈ system.marks q op) : op = .retry x := by
  obtain ⟨a, ha, w, hm⟩ := WorkQueue.system.exists_of_mem_log h
  obtain rfl : a = .countRetry x := WorkQueue.act_of_mem_marks hm
  exact causedBy_of_mem_acts ha

/-- Each retry is on its way until it is handed out. -/
structure Awaited (q : TimedQueue α) (log : List (Mark α)) : Prop where
  running : q.work.shuttingDown = false
  outstanding (x : α) : Since (.retried x) (.handedOut x) log → q.Outstanding x

theorem Awaited.perform {q : TimedQueue α} {log : List (Mark α)} (h : Awaited q log) {op : Op α}
    (hop : op ≠ .shutDown) : Awaited (q.perform op) (log ++ system.marks q op) where
  running := by
    have hne : .shutDown ∉ [op] := fun hm => hop (List.mem_singleton.1 hm).symm
    exact not_shuttingDown_run h.running hne
  outstanding x hs := by
    -- Either this operation is the retry, or it has not handed out the one before it.
    obtain hm | ⟨hl, hn⟩ := (Since.append_iff ..).1 hs
    · obtain rfl := retry_of_retried hm.mem
      exact outstanding_retry h.running x
    · exact (h.outstanding x hl).perform h.running hn

theorem awaited_run (backoff : Backoff) {ops : List (Op α)} (h : .shutDown ∉ ops) :
    Awaited (system.run (.empty backoff) ops) (system.log (.empty backoff) ops) := by
  have start : Awaited (empty backoff : TimedQueue α) [] := ⟨rfl, fun _ hs => absurd hs Since.not_nil⟩
  have keep : ∀ (q : TimedQueue α) log op, Awaited q log → op ≠ .shutDown →
      Awaited (q.perform op) (log ++ system.marks q op) :=
    fun _ _ _ ha hop => ha.perform hop
  exact system.invariant keep start (system.throughout_ne h _)

/-! Requests that are offered. -/

theorem outstanding_add {q : TimedQueue α} (hq : q.work.shuttingDown = false) (x y : α) :
    (q.add x).Outstanding y ↔ y = x ∨ q.Outstanding y := by
  unfold Outstanding
  rw [mem_dirty_add hq, timers_add, or_assoc]

theorem outstanding_offer {q : TimedQueue α} (hq : q.work.shuttingDown = false) (x y : α) :
    (q.offer x).Outstanding y ↔ q.Outstanding y ∨ y = x ∧ q.work.retryCount y = 0 := by
  unfold offer
  split
  · next hr =>
    have : ¬ (y = x ∧ q.work.retryCount y = 0) := by
      intro h
      rw [h.1] at h
      omega
    rw [or_iff_left this]
  · next hr =>
    have : y = x ∧ q.work.retryCount y = 0 ↔ y = x := by
      refine and_iff_left_of_imp fun h => ?_
      rw [h]
      omega
    rw [outstanding_add hq, this, or_comm]

theorem retryCount_offer (q : TimedQueue α) (x y : α) :
    (q.offer x).work.retryCount y = q.work.retryCount y := by
  unfold offer
  split
  · rfl
  · rw [work_add, WorkQueue.retryCount_add]

theorem outstanding_offers {q : TimedQueue α} (hq : q.work.shuttingDown = false) (xs : List α)
    (y : α) :
    (system.run q (xs.map .offer)).Outstanding y ↔
      q.Outstanding y ∨ y ∈ xs ∧ q.work.retryCount y = 0 := by
  induction xs generalizing q with
  | nil => simp [System.run]
  | cons x xs ih =>
    have hs : (q.offer x).work.shuttingDown = false := by
      have hne : Op.shutDown ∉ [Op.offer x] := by simp
      exact not_shuttingDown_run hq hne
    calc
      (system.run q ((x :: xs).map .offer)).Outstanding y
          ↔ (q.offer x).Outstanding y ∨ y ∈ xs ∧ (q.offer x).work.retryCount y = 0 := ih hs
      _ ↔ (q.Outstanding y ∨ y = x ∧ q.work.retryCount y = 0) ∨
            y ∈ xs ∧ q.work.retryCount y = 0 := by
          rw [outstanding_offer hq, retryCount_offer]
      _ ↔ q.Outstanding y ∨ y ∈ x :: xs ∧ q.work.retryCount y = 0 := by
          rw [or_assoc, ← or_and_right, List.mem_cons]

theorem handle_skipRetried (h : Handler) (e : Event) (q : TimedQueue Request) :
    Sink.timed.skipRetried.handle h e q = system.run q ((h.requests e).map .offer) := by
  unfold Sink.handle
  induction h.requests e generalizing q with
  | nil => rfl
  | cons r rs ih => exact ih (q.offer r)

/-- The retries of an item came to an end before they were forgotten: the counter shows that it was
asked for again, but it was handed out since it entered, and no timer brings it back. -/
def Spent (q : TimedQueue α) (log : List (Mark α)) (x : α) : Prop :=
  countSince (.retried x) (.forgotten x) log % UInt32.size ≠ 0 ∧
    ¬ Since (.entered x) (.handedOut x) log ∧ ∀ t ∈ q.timers, t.item ≠ x

theorem spent_iff {q : TimedQueue α} {log : List (Mark α)} (h : q.work.Tracked log) (x : α) :
    q.Spent log x ↔ 0 < q.work.retryCount x ∧ ¬ q.Outstanding x := by
  unfold Spent Outstanding
  rw [h.retryCount_eq, h.mem_dirty_iff, Nat.pos_iff_ne_zero]
  simp

/-- As long as the counter does not start again, it shows each retry. -/
theorem spent_iff_of_lt {q : TimedQueue α} {log : List (Mark α)} {x : α}
    (h : countSince (.retried x) (.forgotten x) log < UInt32.size) :
    q.Spent log x ↔ Since (.retried x) (.forgotten x) log ∧
      ¬ Since (.entered x) (.handedOut x) log ∧ ∀ t ∈ q.timers, t.item ≠ x := by
  rw [Spent, Nat.mod_eq_of_lt h, ← Nat.pos_iff_ne_zero, countSince_pos_iff (by simp)]

/-- A request with a retry is outstanding unless its retries are spent. So an event leaves just the
requests behind whose retries are spent: with fewer retries than the counter has numbers, those that
were retried since they were forgotten, were handed out since they entered and have no timer. A
request whose retry was not handed out is outstanding. -/
theorem outstanding_after_event_iff (backoff : Backoff) (ops : List (Op Request))
    (h : .shutDown ∉ ops) (handler : Handler) (e : Event) :
    let q := system.run (.empty backoff) ops
    let log := system.log (.empty backoff) ops
    (∀ r, 0 < q.work.retryCount r → (q.Outstanding r ↔ ¬ q.Spent log r)) ∧
    (∀ r ∈ handler.requests e,
      (Sink.timed.skipRetried.handle handler e q).Outstanding r ↔ ¬ q.Spent log r) ∧
    (∀ r, countSince (.retried r) (.forgotten r) log < UInt32.size →
      (q.Spent log r ↔ Since (.retried r) (.forgotten r) log ∧
        ¬ Since (.entered r) (.handedOut r) log ∧ ∀ t ∈ q.timers, t.item ≠ r)) ∧
    (∀ r, Since (.retried r) (.handedOut r) log → q.Outstanding r) := by
  intro q log
  have ha : Awaited q log := awaited_run backoff h
  have ht : q.work.Tracked log := tracked_run backoff ops
  refine ⟨fun r hr => ?_, fun r hr => ?_, fun r => spent_iff_of_lt, ha.outstanding⟩
  · rw [spent_iff ht]
    simp [hr]
  · rw [handle_skipRetried, outstanding_offers ha.running, spent_iff ht]
    by_cases hc : q.work.retryCount r = 0
    · simp [hr, hc]
    · simp [hc, Nat.pos_of_ne_zero hc]

/-- A pod in a namespace, with a deployment as its controller. -/
def ownedPod : Object :=
  ⟨some ⟨"v1", "Pod"⟩,
    { ObjectMeta.empty with
      ns := some "ns"
      name := some "app-1"
      ownerReferences := some [⟨"apps/v1", "Deployment", "app", "u", some true, none⟩] }, []⟩

/-- A retry fires, and a worker takes it. -/
def takenRetry (r : Request) : List (Op Request) :=
  [.retry r, .fire ⟨5000000, r⟩, .start "a", .step 0, .step 0]

theorem outstanding_after_event_iff_taken :
    let q := system.run (.empty .default) (takenRetry ⟨some "ns", "app"⟩)
    let log := system.log (.empty .default) (takenRetry ⟨some "ns", "app"⟩)
    let handler := Handler.ownerReference "apps" "Deployment" .namespaced
    .shutDown ∉ takenRetry ⟨some "ns", "app"⟩ ∧
      ⟨some "ns", "app"⟩ ∈ handler.requests (.create ownedPod) ∧
      ((Sink.timed.skipRetried.handle handler (.create ownedPod) q).Outstanding ⟨some "ns", "app"⟩ ↔
        ¬ q.Spent log ⟨some "ns", "app"⟩) := by
  intro q log handler
  have hs : .shutDown ∉ takenRetry ⟨some "ns", "app"⟩ := by simp [takenRetry]
  have hr : ⟨some "ns", "app"⟩ ∈ handler.requests (.create ownedPod) := by decide
  exact ⟨hs, hr, (outstanding_after_event_iff .default _ hs handler (.create ownedPod)).2.1 _ hr⟩

/-- The event of a dependent is lost when it comes while the retry of its owner is processed. -/
theorem event_lost_while_retry_is_processed :
    let r : Request := ⟨some "ns", "app"⟩
    let q := system.run (.empty .default) (takenRetry r)
    let handler := Handler.ownerReference "apps" "Deployment" .namespaced
    .shutDown ∉ takenRetry r ∧
      (system.run (.empty .default) [.retry r]).timers = [⟨5000000, r⟩] ∧
      r ∈ q.work.processing ∧ r ∈ handler.requests (.create ownedPod) ∧
      ¬ (Sink.timed.skipRetried.handle handler (.create ownedPod) q).Outstanding r := by
  refine ⟨by simp [takenRetry], by decide, by decide, by decide, by decide⟩

end DependentWatch.TimedQueue
