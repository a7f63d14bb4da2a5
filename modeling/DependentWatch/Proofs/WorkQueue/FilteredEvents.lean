import DependentWatch.Proofs.Routing.Requests
import DependentWatch.Proofs.WorkQueue.SkippedRetries
/-! Events whose requests with a retry are left out. What remains of an event is added as it would be
without the filter, since no request that is added changes which others have a retry. -/
namespace DependentWatch

namespace Sink
variable {σ : Type} (s : Sink σ)

theorem skipRetried_skipRetried : s.skipRetried.skipRetried = s.skipRetried := by
  have hadd : s.skipRetried.skipRetried.add = s.skipRetried.add := by
    funext q r
    by_cases hr : 0 < s.retryCount q r
    · exact (if_pos hr).trans (if_pos hr).symm
    · exact if_neg hr
  exact congrArg (Sink.mk · s.retryCount) hadd

/-- The requests of an event that have no retry. -/
def unretried (h : Handler) (e : Event) (q : σ) : List Request :=
  (h.requests e).filter (s.retryCount q · = 0)

/-- Where additions leave the counts alone, the requests that pass are known beforehand. -/
theorem handle_skipRetried_eq (hs : ∀ q r, s.retryCount (s.add q r) = s.retryCount q) (h : Handler)
    (e : Event) (q : σ) : s.skipRetried.handle h e q = (s.unretried h e q).foldl s.add q := by
  unfold handle unretried
  induction h.requests e generalizing q with
  | nil => rfl
  | cons r rs ih =>
    rw [List.foldl_cons, ih, List.filter_cons]
    by_cases hr : s.retryCount q r = 0
    · have hadd : s.skipRetried.add q r = s.add q r := if_neg (by rw [hr]; exact Nat.lt_irrefl 0)
      have hcount : s.skipRetried.retryCount (s.add q r) = s.retryCount q := hs q r
      simp only [hadd, hr, decide_true, if_true, List.foldl_cons, hs]
    · have hskip : s.skipRetried.add q r = q := if_pos (Nat.pos_of_ne_zero hr)
      simp only [hskip, hr, decide_false, Bool.false_eq_true, if_false]

/-- Handles events one after the other. -/
def handleAll (h : Handler) (es : List Event) (q : σ) : σ := es.foldl (fun q e => s.handle h e q) q

end Sink

namespace TimedQueue
variable {α : Type} [DecidableEq α]

/-! Many items that are added one after the other. -/

theorem retryCount_add (q : TimedQueue α) (x : α) : (q.add x).work.retryCount = q.work.retryCount := by
  funext y
  rw [work_add, WorkQueue.retryCount_add]

/-- No more than the queue and the dirty items changes. -/
theorem exists_foldl_add_eq (xs : List α) (q : TimedQueue α) :
    ∃ queue dirty, (xs.foldl add q).work = { q.work with queue, dirty } := by
  induction xs generalizing q with
  | nil => exact ⟨_, _, rfl⟩
  | cons x xs ih =>
    obtain ⟨_, _, hfirst⟩ := q.work.exists_add_eq x
    obtain ⟨queue, dirty, hrest⟩ := ih (q.add x)
    refine ⟨queue, dirty, ?_⟩
    rw [List.foldl_cons, hrest, work_add, hfirst]

theorem mem_dirty_foldl_add (xs : List α) (q : TimedQueue α) (y : α) :
    y ∈ (xs.foldl add q).work.dirty ↔
      y ∈ q.work.dirty ∨ q.work.shuttingDown = false ∧ y ∈ xs := by
  have hone (q : TimedQueue α) (x : α) :
      y ∈ (q.add x).work.dirty ↔ y ∈ q.work.dirty ∨ q.work.shuttingDown = false ∧ y = x := by
    rw [work_add, show q.work.add x = q.work.perform (.add x) from rfl, WorkQueue.mem_dirty_perform]
    cases hs : q.work.shuttingDown <;> simp [WorkQueue.marks, hs, or_comm]
  induction xs generalizing q with
  | nil => simp
  | cons x xs ih =>
    rw [List.foldl_cons]
    refine (ih (q.add x)).trans ?_
    rw [hone, work_add, WorkQueue.shuttingDown_add, List.mem_cons, or_assoc, ← and_or_left]

theorem mem_queue_foldl_add {xs : List α} {y : α} (h : y ∉ xs) (q : TimedQueue α) :
    y ∈ (xs.foldl add q).work.queue ↔ y ∈ q.work.queue := by
  induction xs generalizing q with
  | nil => rfl
  | cons x xs ih =>
    obtain ⟨hx, hxs⟩ := List.ne_and_not_mem_of_not_mem_cons h
    rw [List.foldl_cons, ih hxs, work_add]
    obtain hq | hq := q.work.queue_add x
    · rw [hq]
    · rw [hq, List.mem_append, List.mem_singleton, or_iff_left hx]

omit [DecidableEq α] in
theorem owed_notifyAll (q : WaitingQueue α) : q.notifyAll.owed = 0 := by
  have hnotify (q : WaitingQueue α) : q.notify.owed = q.owed - 1 := by
    unfold WaitingQueue.notify WaitingQueue.wakeOne
    split
    · next h => rw [h]
    · next n h =>
      rw [h]
      split <;> rfl
  have hmany (n : Nat) : (n.repeat WaitingQueue.notify q).owed = q.owed - n := by
    induction n with
    | zero => rfl
    | succ n ih => rw [Nat.repeat, hnotify, ih, Nat.sub_sub]
  exact (hmany q.owed).trans (Nat.sub_self q.owed)

/-- An item that is dirty is not added again, and nobody is woken for it. -/
theorem add_eq_self {q : TimedQueue α} (ho : q.waiting.owed = 0) {x : α}
    (h : q.work.shuttingDown ∨ x ∈ q.work.dirty) : q.add x = q := by
  have hwork : q.waiting.work.add x = q.waiting.work := if_pos h
  have hbecome : q.waiting.become (q.waiting.work.add x) = q.waiting := by
    rw [hwork, WaitingQueue.become, Nat.sub_self, Nat.add_zero]
  have hadd : q.waiting.add x = q.waiting := by
    rw [WaitingQueue.add, hbecome, WaitingQueue.notifyAll, ho]
    rfl
  rw [add, hadd]

theorem foldl_add_eq_self {q : TimedQueue α} (ho : q.waiting.owed = 0) {xs : List α}
    (h : ∀ x ∈ xs, q.work.shuttingDown ∨ x ∈ q.work.dirty) : xs.foldl add q = q := by
  induction xs with
  | nil => rfl
  | cons x xs ih =>
    rw [List.foldl_cons, add_eq_self ho (h x List.mem_cons_self)]
    exact ih fun y hy => h y (List.mem_cons_of_mem x hy)

theorem owed_foldl_add {q : TimedQueue α} {xs : List α} (h : xs ≠ []) :
    (xs.foldl add q).waiting.owed = 0 := by
  rw [← List.dropLast_concat_getLast h, List.foldl_append]
  exact owed_notifyAll _

/-- The same items once more change nothing. -/
theorem foldl_add_foldl_add (xs : List α) (q : TimedQueue α) :
    xs.foldl add (xs.foldl add q) = xs.foldl add q := by
  by_cases hxs : xs = []
  · subst hxs
    rfl
  · refine foldl_add_eq_self (owed_foldl_add hxs) fun x hx => ?_
    obtain ⟨_, _, hwork⟩ := exists_foldl_add_eq xs q
    have hs : (xs.foldl add q).work.shuttingDown = q.work.shuttingDown := by rw [hwork]
    rw [hs, mem_dirty_foldl_add]
    cases q.work.shuttingDown with
    | true => exact .inl rfl
    | false => exact .inr (.inr ⟨rfl, hx⟩)

/-! Events at a queue of requests. -/

theorem handle_eq_foldl (h : Handler) (e : Event) (q : TimedQueue Request) :
    Sink.timed.skipRetried.handle h e q = (Sink.timed.unretried h e q).foldl add q :=
  Sink.timed.handle_skipRetried_eq retryCount_add h e q

theorem mem_unretried (h : Handler) (e : Event) (q : TimedQueue Request) (r : Request) :
    r ∈ Sink.timed.unretried h e q ↔ r ∈ h.requests e ∧ q.work.retryCount r = 0 := by
  rw [Sink.unretried, List.mem_filter, decide_eq_true_eq]
  rfl

theorem exists_handle_eq (h : Handler) (e : Event) (q : TimedQueue Request) :
    ∃ queue dirty, (Sink.timed.skipRetried.handle h e q).work = { q.work with queue, dirty } := by
  rw [handle_eq_foldl]
  exact exists_foldl_add_eq _ q

theorem retryCount_handle (h : Handler) (e : Event) (q : TimedQueue Request) :
    (Sink.timed.skipRetried.handle h e q).work.retryCount = q.work.retryCount := by
  obtain ⟨_, _, hwork⟩ := exists_handle_eq h e q
  rw [hwork]
  rfl

/-- Which requests are dirty after many events, whatever their order. -/
theorem mem_dirty_handleAll (h : Handler) (es : List Event) (q : TimedQueue Request) (r : Request) :
    r ∈ (Sink.timed.skipRetried.handleAll h es q).work.dirty ↔
      r ∈ q.work.dirty ∨
        q.work.shuttingDown = false ∧ q.work.retryCount r = 0 ∧ ∃ e ∈ es, r ∈ h.requests e := by
  induction es generalizing q with
  | nil => simp [Sink.handleAll]
  | cons e es ih =>
    have hcons : Sink.timed.skipRetried.handleAll h (e :: es) q =
        Sink.timed.skipRetried.handleAll h es (Sink.timed.skipRetried.handle h e q) := rfl
    have hs : (Sink.timed.skipRetried.handle h e q).work.shuttingDown = q.work.shuttingDown := by
      obtain ⟨_, _, hwork⟩ := exists_handle_eq h e q
      rw [hwork]
    rw [hcons, ih, hs, retryCount_handle, handle_eq_foldl, mem_dirty_foldl_add, mem_unretried]
    simp only [List.mem_cons, exists_eq_or_imp]
    constructor
    · intro hr
      obtain (hr | ⟨ho, hre, hc⟩) | ⟨ho, hc, hr⟩ := hr
      · exact .inl hr
      · exact .inr ⟨ho, hc, .inl hre⟩
      · exact .inr ⟨ho, hc, .inr hr⟩
    · intro hr
      obtain hr | ⟨ho, hc, hre | hr⟩ := hr
      · exact .inl (.inl hr)
      · exact .inl (.inr ⟨ho, hre, hc⟩)
      · exact .inr ⟨ho, hc, hr⟩

/-- Behind the filter an event adds, in order, the requests that had no retry when it came, and does
nothing else; all that is known of the other requests stays as it was. So the filter is not felt
where no request has a retry, filtering twice is filtering once, the same event again changes
nothing, and events in any order leave the same requests dirty. -/
theorem event_adds_unretried (h : Handler) (e : Event) (q : TimedQueue Request) :
    let filtered := Sink.timed.skipRetried
    let unretried := (h.requests e).filter (q.work.retryCount · = 0)
    filtered.handle h e q = unretried.foldl add q ∧
    unretried.Pairwise (fun a b => a.before b) ∧
    (∀ r, 0 < q.work.retryCount r →
      (r ∈ (filtered.handle h e q).work.queue ↔ r ∈ q.work.queue) ∧
      (r ∈ (filtered.handle h e q).work.dirty ↔ r ∈ q.work.dirty) ∧
      (r ∈ (filtered.handle h e q).work.processing ↔ r ∈ q.work.processing)) ∧
    (∀ r, (filtered.handle h e q).work.retryCount r = q.work.retryCount r) ∧
    ((∀ r ∈ h.requests e, q.work.retryCount r = 0) →
      filtered.handle h e q = Sink.timed.handle h e q) ∧
    filtered.skipRetried.handle h e q = filtered.handle h e q ∧
    filtered.handle h e (filtered.handle h e q) = filtered.handle h e q ∧
    (∀ es es' : List Event, es.Perm es' → ∀ r,
      r ∈ (filtered.handleAll h es q).work.dirty ↔ r ∈ (filtered.handleAll h es' q).work.dirty) := by
  intro filtered unretried
  have hadds : filtered.handle h e q = unretried.foldl add q := handle_eq_foldl h e q
  have hcounts : (filtered.handle h e q).work.retryCount = q.work.retryCount := retryCount_handle h e q
  refine ⟨hadds, (h.pairwise_requests e).filter _, ?_, fun r => congrFun hcounts r, ?_, ?_, ?_, ?_⟩
  · intro r hr
    have hn : r ∉ unretried := fun hm => Nat.ne_of_gt hr ((mem_unretried h e q r).1 hm).2
    obtain ⟨_, _, hwork⟩ := exists_handle_eq h e q
    refine ⟨?_, ?_, ?_⟩
    · rw [hadds, mem_queue_foldl_add hn]
    · rw [hadds, mem_dirty_foldl_add, or_iff_left fun hm => hn hm.2]
    · rw [hwork]
  · intro hnone
    have hall : unretried = h.requests e :=
      List.filter_eq_self.2 fun r hr => decide_eq_true (hnone r hr)
    rw [hadds, hall]
    rfl
  · rw [Sink.skipRetried_skipRetried]
  · -- The counts are as before, so the same requests pass once more, and they are dirty by now.
    have hagain : filtered.handle h e (filtered.handle h e q) =
        unretried.foldl add (filtered.handle h e q) := by
      rw [handle_eq_foldl, Sink.unretried]
      exact congrArg (fun count => ((h.requests e).filter (count · = 0)).foldl add _) hcounts
    rw [hagain, hadds, foldl_add_foldl_add]
  · intro es es' hperm r
    rw [mem_dirty_handleAll, mem_dirty_handleAll]
    simp only [hperm.mem_iff]

/-- A pod goes over from an owner with a retry to another one, which alone is added. -/
theorem event_adds_unretried_moved :
    let app : Request := ⟨some "ns", "app"⟩
    let web : Request := ⟨some "ns", "web"⟩
    let q := system.run (.empty .default) [.retry app]
    let handler := Handler.ownerReference "apps" "Deployment" .namespaced
    let moved := { ownedPod with metadata := { ownedPod.metadata with
      ownerReferences := some [⟨"apps/v1", "Deployment", "web", "v", some true, none⟩] } }
    let next := Sink.timed.skipRetried.handle handler (.update ownedPod moved) q
    handler.requests (.update ownedPod moved) = [app, web] ∧ 0 < q.work.retryCount app ∧
      next = q.add web ∧ (app ∈ next.work.dirty ↔ app ∈ q.work.dirty) := by
  intro app web q handler moved next
  have hrequests : handler.requests (.update ownedPod moved) = [app, web] := by decide +kernel
  have hretried : 0 < q.work.retryCount app := by decide
  have hunretried : [app, web].filter (q.work.retryCount · = 0) = [web] := by decide +kernel
  have hnext := event_adds_unretried handler (.update ownedPod moved) q
  refine ⟨hrequests, hretried, hnext.1.trans ?_, (hnext.2.2.1 app hretried).2.1⟩
  rw [hrequests, hunretried]
  rfl

end TimedQueue
end DependentWatch
