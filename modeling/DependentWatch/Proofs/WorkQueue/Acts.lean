import DependentWatch.Proofs.History
import DependentWatch.Proofs.Lookup
import DependentWatch.WorkQueue
/-! What becomes of the items of a queue, act by act. The history of the acts decides which items
are dirty, which are being processed and which have a retry. -/
namespace DependentWatch.WorkQueue
variable {α : Type} [DecidableEq α]

/-- What is done to a queue at one time. -/
inductive Act (α : Type) where
  | add (x : α)
  | take
  | done (x : α)
  | countRetry (x : α)
  | forget (x : α)
  | shutDown

/-- What is remembered of an act. An item enters when it is added before the shutdown. -/
inductive Mark (α : Type) where
  | entered (x : α)
  | handedOut (x : α)
  | done (x : α)
  | retried (x : α)
  | forgotten (x : α)
deriving DecidableEq

def Mark.item? : Mark α → Option α
  | .handedOut x => some x
  | _ => none

/-- The items that were handed out, in order. -/
def handouts (log : List (Mark α)) : List α := log.filterMap Mark.item?

def perform (q : WorkQueue α) : Act α → WorkQueue α
  | .add x => q.add x
  | .take => q.take.2
  | .done x => q.done x
  | .countRetry x => q.countRetry x
  | .forget x => q.forget x
  | .shutDown => q.shutDown

def marks (q : WorkQueue α) : Act α → List (Mark α)
  | .add x => if q.shuttingDown then [] else [.entered x]
  | .take =>
    match q.take.1 with
    | .item x => [.handedOut x]
    | _ => []
  | .done x => [.done x]
  | .countRetry x => [.retried x]
  | .forget x => [.forgotten x]
  | .shutDown => []

def system : System (WorkQueue α) (Act α) (Mark α) := ⟨perform, marks⟩

/-- Only an item that is being processed gets done. -/
def Proper (q : WorkQueue α) : Act α → Prop
  | .done x => x ∈ q.processing
  | _ => True

/-- An item that is added changes no more than the queue and the dirty items. -/
theorem exists_add_eq (q : WorkQueue α) (x : α) :
    ∃ queue dirty, q.add x = { q with queue, dirty } := by
  unfold add
  split
  · exact ⟨_, _, rfl⟩
  · split <;> exact ⟨_, _, rfl⟩

@[simp] theorem processing_add (q : WorkQueue α) (x : α) : (q.add x).processing = q.processing := by
  obtain ⟨_, _, h⟩ := q.exists_add_eq x
  rw [h]

@[simp] theorem shuttingDown_add (q : WorkQueue α) (x : α) :
    (q.add x).shuttingDown = q.shuttingDown := by
  obtain ⟨_, _, h⟩ := q.exists_add_eq x
  rw [h]

@[simp] theorem retryCount_add (q : WorkQueue α) (x y : α) :
    (q.add x).retryCount y = q.retryCount y := by
  obtain ⟨_, _, h⟩ := q.exists_add_eq x
  rw [h]
  rfl

theorem take_cons {q : WorkQueue α} {x : α} {rest : List α} (h : q.queue = x :: rest) :
    q.take = (.item x, { q with
      queue := rest
      dirty := q.dirty.filter (· ≠ x)
      processing := q.processing.insert x }) := by
  simp only [take, h]

theorem take_nil {q : WorkQueue α} (h : q.queue = []) :
    q.take = (if q.shuttingDown then .closed else .pending, q) := by
  simp only [take, h]

theorem marks_take_cons {q : WorkQueue α} {x : α} {rest : List α} (h : q.queue = x :: rest) :
    q.marks .take = [.handedOut x] := by
  simp only [marks, take_cons h]

theorem marks_take_nil {q : WorkQueue α} (h : q.queue = []) : q.marks .take = [] := by
  simp only [marks, take_nil h]
  cases q.shuttingDown <;> rfl

theorem length_marks (q : WorkQueue α) (a : Act α) : (q.marks a).length ≤ 1 := by
  cases a with
  | add x => simp only [marks]; split <;> simp
  | take =>
    cases h : q.queue with
    | nil => simp [marks_take_nil h]
    | cons x rest => simp [marks_take_cons h]
  | _ => simp [marks]

/-- The act that leaves a mark. -/
def Mark.act : Mark α → Act α
  | .entered x => .add x
  | .handedOut _ => .take
  | .done x => .done x
  | .retried x => .countRetry x
  | .forgotten x => .forget x

theorem act_of_mem_marks {q : WorkQueue α} {a : Act α} {m : Mark α} (h : m ∈ q.marks a) :
    a = m.act := by
  cases a with
  | add y =>
    simp only [marks] at h
    split at h
    · simp at h
    · rw [List.mem_singleton.1 h, Mark.act]
  | take =>
    cases hq : q.queue with
    | nil => simp [marks_take_nil hq] at h
    | cons y rest =>
      rw [marks_take_cons hq] at h
      rw [List.mem_singleton.1 h, Mark.act]
  | shutDown => simp [marks] at h
  | _ => rw [List.mem_singleton.1 h, Mark.act]

/-- An item is at the head of the queue when it is handed out. -/
theorem handedOut_mem_marks {q : WorkQueue α} {a : Act α} {x : α}
    (h : .handedOut x ∈ q.marks a) : a = .take ∧ ∃ rest, q.queue = x :: rest := by
  obtain rfl : a = .take := act_of_mem_marks h
  cases hq : q.queue with
  | nil => simp [marks_take_nil hq] at h
  | cons y rest =>
    simp only [marks_take_cons hq, List.mem_singleton, Mark.handedOut.injEq] at h
    exact ⟨rfl, rest, by rw [h]⟩

theorem entered_mem_marks_iff (q : WorkQueue α) (a : Act α) (x : α) :
    .entered x ∈ q.marks a ↔ a = .add x ∧ q.shuttingDown = false := by
  constructor
  · intro h
    obtain rfl : a = .add x := act_of_mem_marks h
    cases hs : q.shuttingDown with
    | true => simp [marks, hs] at h
    | false => exact ⟨rfl, rfl⟩
  · rintro ⟨rfl, hs⟩
    simp [marks, hs]

/-! The queue itself: items leave it at the front and join it at the end. -/

theorem queue_add (q : WorkQueue α) (x : α) :
    (q.add x).queue = q.queue ∨ (q.add x).queue = q.queue ++ [x] := by
  unfold add
  split
  · exact .inl rfl
  · split
    · exact .inl rfl
    · exact .inr rfl

theorem handouts_marks_add (q : WorkQueue α) (x : α) : handouts (q.marks (.add x)) = [] := by
  simp only [marks]
  split <;> rfl

/-- What was handed out, and then what is queued, is what stood in a queue before and then what was
pushed. -/
def Feeds (queue : List α) (q : WorkQueue α) (log : List (Mark α)) : Prop :=
  ∃ pushed, handouts log ++ q.queue = queue ++ pushed

theorem feeds_perform (q : WorkQueue α) (a : Act α) : Feeds q.queue (q.perform a) (q.marks a) := by
  cases a with
  | add x =>
    unfold Feeds
    rw [handouts_marks_add, List.nil_append]
    obtain h | h := q.queue_add x
    · exact ⟨[], by rw [perform, h, List.append_nil]⟩
    · exact ⟨[x], h⟩
  | take =>
    refine ⟨[], ?_⟩
    cases h : q.queue with
    | nil => simp [marks_take_nil h, perform, take_nil h, h, handouts]
    | cons x rest => simp [marks_take_cons h, perform, take_cons h, handouts, Mark.item?]
  | done x =>
    by_cases hx : x ∈ q.dirty
    · exact ⟨[x], by simp [marks, perform, done, hx, handouts, Mark.item?]⟩
    · exact ⟨[], by simp [marks, perform, done, hx, handouts, Mark.item?]⟩
  | _ => exact ⟨[], by simp [marks, perform, countRetry, forget, shutDown, handouts, Mark.item?]⟩

theorem Feeds.perform {queue : List α} {q : WorkQueue α} {log : List (Mark α)}
    (h : Feeds queue q log) (a : Act α) : Feeds queue (q.perform a) (log ++ q.marks a) := by
  obtain ⟨before, hb⟩ := h
  obtain ⟨later, hl⟩ := q.feeds_perform a
  refine ⟨before ++ later, ?_⟩
  calc
    handouts (log ++ q.marks a) ++ (q.perform a).queue
        = handouts log ++ (handouts (q.marks a) ++ (q.perform a).queue) := by simp [handouts]
    _ = handouts log ++ q.queue ++ later := by rw [hl, List.append_assoc]
    _ = queue ++ (before ++ later) := by rw [hb, List.append_assoc]

omit [DecidableEq α] in
/-- An item is handed out in its turn, whatever is done in between. -/
theorem Feeds.place {queue : List α} {q : WorkQueue α} {log : List (Mark α)} (h : Feeds queue q log)
    (hn : queue.Nodup) {k : Nat} {x : α} (hx : queue[k]? = some x) (hk : k < (handouts log).length) :
    (handouts log)[k]? = some x ∧ x ∉ (handouts log).take k := by
  obtain ⟨hq, rfl⟩ := List.getElem?_eq_some_iff.1 hx
  obtain ⟨pushed, h⟩ := h
  have htake : (handouts log).take k = queue.take k := by
    have := congrArg (List.take k) h
    rwa [List.take_append_of_le_length (by omega), List.take_append_of_le_length (by omega)] at this
  constructor
  · rw [← List.getElem?_append_left hk, h, List.getElem?_append_left hq, hx]
  · rw [htake]
    intro hm
    have hd : queue[k] ∈ queue.drop k := by
      rw [List.drop_eq_getElem_cons hq]
      exact List.mem_cons_self
    rw [← List.take_append_drop k queue] at hn
    exact (List.nodup_append.1 hn).2.2 _ hm _ hd rfl

/-! The representation: which of the dirty items wait in the queue. -/

structure Orderly (q : WorkQueue α) : Prop where
  nodup : q.queue.Nodup
  mem_queue_iff (x : α) : x ∈ q.queue ↔ x ∈ q.dirty ∧ x ∉ q.processing

omit [DecidableEq α] in
theorem orderly_empty : Orderly (empty : WorkQueue α) :=
  ⟨List.nodup_nil, by simp [empty]⟩

omit [DecidableEq α] in
theorem nodup_push {queue : List α} {x : α} (h : queue.Nodup) (hx : x ∉ queue) :
    (queue ++ [x]).Nodup := by
  refine List.nodup_append.2 ⟨h, by simp, fun y hy z hz => ?_⟩
  intro he
  exact hx (List.mem_singleton.1 hz ▸ he ▸ hy)

theorem Orderly.add {q : WorkQueue α} (h : Orderly q) (x : α) : Orderly (q.add x) := by
  unfold WorkQueue.add
  split
  · exact h
  · next hd =>
    have hx : x ∉ q.queue := fun hq => hd (.inr ((h.mem_queue_iff x).1 hq).1)
    split
    · next hp =>
      refine ⟨h.nodup, fun y => ?_⟩
      rw [h.mem_queue_iff y, List.mem_cons]
      constructor
      · exact fun hy => ⟨.inr hy.1, hy.2⟩
      · intro hy
        obtain ⟨rfl | hd, hn⟩ := hy
        · exact absurd hp hn
        · exact ⟨hd, hn⟩
    · next hp =>
      refine ⟨nodup_push h.nodup hx, fun y => ?_⟩
      rw [List.mem_append, List.mem_singleton, h.mem_queue_iff y, List.mem_cons]
      constructor
      · intro hy
        obtain hy | rfl := hy
        · exact ⟨.inr hy.1, hy.2⟩
        · exact ⟨.inl rfl, hp⟩
      · intro hy
        obtain ⟨rfl | hd, hn⟩ := hy
        · exact .inr rfl
        · exact .inl ⟨hd, hn⟩

theorem Orderly.take {q : WorkQueue α} (h : Orderly q) : Orderly q.take.2 := by
  cases hq : q.queue with
  | nil => rwa [take_nil hq]
  | cons x rest =>
    have hn : x ∉ rest ∧ rest.Nodup := List.nodup_cons.1 (hq ▸ h.nodup)
    rw [take_cons hq]
    refine ⟨hn.2, fun y => ?_⟩
    have hy := h.mem_queue_iff y
    rw [hq, List.mem_cons] at hy
    simp only [List.mem_filter, decide_not, Bool.not_eq_true', decide_eq_false_iff_not,
      List.mem_insert_iff, not_or]
    constructor
    · intro hm
      have hne : y ≠ x := fun he => hn.1 (he ▸ hm)
      have := hy.1 (.inr hm)
      exact ⟨⟨this.1, hne⟩, hne, this.2⟩
    · intro hm
      obtain ⟨⟨hd, hne⟩, _, hp⟩ := hm
      exact (hy.2 ⟨hd, hp⟩).resolve_left hne

/-- An item that is done comes back where it was added meanwhile. -/
theorem Orderly.done {q : WorkQueue α} (h : Orderly q) {x : α} (hx : x ∈ q.processing) :
    Orderly (q.done x) := by
  have hq : x ∉ q.queue := fun hm => ((h.mem_queue_iff x).1 hm).2 hx
  have mem (y : α) : y ∈ (q.done x).queue ↔ y ∈ q.queue ∨ y = x ∧ x ∈ q.dirty := by
    by_cases hd : x ∈ q.dirty <;> simp [WorkQueue.done, hd]
  refine ⟨?_, fun y => ?_⟩
  · unfold WorkQueue.done
    split
    · exact nodup_push h.nodup hq
    · exact h.nodup
  · rw [mem, h.mem_queue_iff y]
    simp only [WorkQueue.done, List.mem_filter, decide_not, Bool.not_eq_true',
      decide_eq_false_iff_not, not_and, Decidable.not_not]
    constructor
    · intro hm
      obtain hy | ⟨rfl, hd⟩ := hm
      · exact ⟨hy.1, fun hp => absurd hp hy.2⟩
      · exact ⟨hd, fun _ => rfl⟩
    · intro hm
      obtain ⟨hd, hp⟩ := hm
      by_cases he : y = x
      · exact .inr ⟨he, he ▸ hd⟩
      · exact .inl ⟨hd, fun hm => he (hp hm)⟩

theorem Orderly.perform {q : WorkQueue α} (h : Orderly q) (a : Act α) (ha : q.Proper a) :
    Orderly (q.perform a) := by
  cases a with
  | add x => exact h.add x
  | take => exact h.take
  | done x => exact h.done ha
  | countRetry x => exact ⟨h.nodup, h.mem_queue_iff⟩
  | forget x => exact ⟨h.nodup, h.mem_queue_iff⟩
  | shutDown => exact ⟨h.nodup, h.mem_queue_iff⟩

/-! The history: what the marks of an act say about the items. -/

theorem mem_dirty_perform (q : WorkQueue α) (a : Act α) (x : α) :
    x ∈ (q.perform a).dirty ↔
      .entered x ∈ q.marks a ∨ x ∈ q.dirty ∧ .handedOut x ∉ q.marks a := by
  cases a with
  | add y =>
    simp only [perform, marks, add]
    by_cases hs : q.shuttingDown
    · simp [hs]
    · by_cases hd : y ∈ q.dirty
      · simp only [hs, hd, or_true, if_true, Bool.false_eq_true, if_false, List.mem_singleton,
          Mark.entered.injEq, reduceCtorEq, not_false_eq_true, and_true]
        exact ⟨.inr, fun h => h.elim (fun he => he ▸ hd) id⟩
      · simp only [hs, hd, or_self, if_false, Bool.false_eq_true, List.mem_singleton,
          Mark.entered.injEq, reduceCtorEq, not_false_eq_true, and_true]
        split <;> exact List.mem_cons
  | take =>
    cases h : q.queue with
    | nil => simp [marks_take_nil h, perform, take_nil h]
    | cons y rest =>
      simp only [marks_take_cons h, perform, take_cons h, List.mem_filter, decide_not,
        Bool.not_eq_true', decide_eq_false_iff_not, List.mem_singleton, reduceCtorEq, false_or,
        Mark.handedOut.injEq]
  | _ => simp [perform, marks, done, countRetry, forget, shutDown]

theorem mem_processing_perform (q : WorkQueue α) (a : Act α) (x : α) :
    x ∈ (q.perform a).processing ↔
      .handedOut x ∈ q.marks a ∨ x ∈ q.processing ∧ .done x ∉ q.marks a := by
  cases a with
  | add y =>
    simp only [perform, marks, processing_add]
    split <;> simp
  | take =>
    cases h : q.queue with
    | nil => simp [marks_take_nil h, perform, take_nil h]
    | cons y rest => simp [marks_take_cons h, perform, take_cons h]
  | done y => simp [perform, marks, done]
  | _ => simp [perform, marks, countRetry, forget, shutDown]

theorem shuttingDown_perform (q : WorkQueue α) {a : Act α} (h : a ≠ .shutDown) :
    (q.perform a).shuttingDown = q.shuttingDown := by
  cases a with
  | add x => exact q.shuttingDown_add x
  | take =>
    cases hq : q.queue with
    | nil => rw [perform, take_nil hq]
    | cons x rest => rw [perform, take_cons hq]
  | shutDown => exact absurd rfl h
  | _ => rfl

theorem shuttingDown_perform_iff (q : WorkQueue α) (a : Act α) :
    (q.perform a).shuttingDown = true ↔ q.shuttingDown = true ∨ a = .shutDown := by
  by_cases h : a = .shutDown
  · simp [h, perform, shutDown]
  · simp [q.shuttingDown_perform h, h]

theorem shuttingDown_run_iff (q : WorkQueue α) (as : List (Act α)) :
    (system.run q as).shuttingDown = true ↔ q.shuttingDown = true ∨ .shutDown ∈ as :=
  system.run_iff_of_step (P := fun q => q.shuttingDown = true) shuttingDown_perform_iff q as

/-- Without a shutdown among them, acts let an item in where they add it to an open queue. -/
theorem entered_mem_log_iff {q : WorkQueue α} {as : List (Act α)} (h : .shutDown ∉ as) (x : α) :
    .entered x ∈ system.log q as ↔ .add x ∈ as ∧ q.shuttingDown = false := by
  induction as generalizing q with
  | nil => simp [System.log]
  | cons a as ih =>
    obtain ⟨ha, has⟩ := List.ne_and_not_mem_of_not_mem_cons h
    have hopen : (q.perform a).shuttingDown = q.shuttingDown := q.shuttingDown_perform ha.symm
    rw [System.log, List.mem_append, List.mem_cons, or_and_right, eq_comm (a := Act.add x)]
    exact or_congr (q.entered_mem_marks_iff a x) (hopen ▸ ih has)

theorem retryCount_lt (q : WorkQueue α) (x : α) : q.retryCount x < UInt32.size :=
  (q.counter x).toNat_lt_size

theorem retryCount_countRetry (q : WorkQueue α) (x y : α) :
    (q.countRetry y).retryCount x =
      if x = y then (q.retryCount x + 1) % UInt32.size else q.retryCount x := by
  simp only [retryCount, counter, countRetry, lookup_put]
  split
  · next h =>
    rw [h, Option.getD_some, UInt32.toNat_add]
    rfl
  · rfl

theorem retryCount_forget (q : WorkQueue α) (x y : α) :
    (q.forget y).retryCount x = if x = y then 0 else q.retryCount x := by
  simp only [retryCount, counter, forget, lookup_filter_ne]
  split <;> rfl

theorem retryCount_perform_of_other {q : WorkQueue α} {a : Act α} {x : α} (hr : a ≠ .countRetry x)
    (hf : a ≠ .forget x) : (q.perform a).retryCount x = q.retryCount x := by
  cases a with
  | add y => exact q.retryCount_add y x
  | take =>
    cases h : q.queue with
    | nil => rw [perform, take_nil h]
    | cons y rest =>
      rw [perform, take_cons h]
      rfl
  | countRetry y => exact (q.retryCount_countRetry x y).trans (if_neg fun h => hr (by rw [h]))
  | forget y => exact (q.retryCount_forget x y).trans (if_neg fun h => hf (by rw [h]))
  | _ => rfl

/-- What an act does to the counter of an item. -/
theorem retryCount_perform (q : WorkQueue α) (a : Act α) (x : α) :
    (q.perform a).retryCount x =
      if .forgotten x ∈ q.marks a then 0
      else (q.retryCount x + (q.marks a).count (.retried x)) % UInt32.size := by
  by_cases hf : a = .forget x
  · subst hf
    simp [perform, retryCount_forget, marks]
  · by_cases hr : a = .countRetry x
    · subst hr
      simp [perform, retryCount_countRetry, marks]
    · rw [retryCount_perform_of_other hr hf, if_neg fun h => hf (act_of_mem_marks h),
        List.count_eq_zero.2 fun h => hr (act_of_mem_marks h), Nat.add_zero]
      exact (Nat.mod_eq_of_lt (q.retryCount_lt x)).symm

/-- What the history tells of the items. -/
structure Tracked (q : WorkQueue α) (log : List (Mark α)) : Prop where
  mem_dirty_iff (x : α) : x ∈ q.dirty ↔ Since (.entered x) (.handedOut x) log
  mem_processing_iff (x : α) : x ∈ q.processing ↔ Since (.handedOut x) (.done x) log
  retryCount_eq (x : α) :
    q.retryCount x = countSince (.retried x) (.forgotten x) log % UInt32.size

theorem tracked_empty : Tracked (empty : WorkQueue α) [] where
  mem_dirty_iff x := by simp [empty, Since.not_nil]
  mem_processing_iff x := by simp [empty, Since.not_nil]
  retryCount_eq _ := rfl

theorem Tracked.perform {q : WorkQueue α} {log : List (Mark α)} (h : Tracked q log) (a : Act α) :
    Tracked (q.perform a) (log ++ q.marks a) where
  mem_dirty_iff x := by
    rw [mem_dirty_perform, Since.append_short_iff (q.length_marks a), h.mem_dirty_iff]
  mem_processing_iff x := by
    rw [mem_processing_perform, Since.append_short_iff (q.length_marks a), h.mem_processing_iff]
  retryCount_eq x := by
    rw [retryCount_perform, countSince_append_short _ _ (q.length_marks a), h.retryCount_eq]
    split
    · rfl
    · rw [Nat.mod_add_mod]

/-- What stands in the history when an item is handed out: it entered since it was handed out the
last time, and it was done. -/
def Due (x : α) (log : List (Mark α)) : Prop :=
  Since (.entered x) (.handedOut x) log ∧ ¬ Since (.handedOut x) (.done x) log

theorem due_of_handedOut {q : WorkQueue α} {log : List (Mark α)} (ho : Orderly q)
    (ht : Tracked q log) {a : Act α} {x : α} (h : .handedOut x ∈ q.marks a) : Due x log := by
  obtain ⟨_, rest, hq⟩ := handedOut_mem_marks h
  have hx := (ho.mem_queue_iff x).1 (by simp [hq])
  exact ⟨(ht.mem_dirty_iff x).1 hx.1, fun hs => hx.2 ((ht.mem_processing_iff x).2 hs)⟩

structure Regular (q : WorkQueue α) (log : List (Mark α)) : Prop where
  orderly : Orderly q
  tracked : Tracked q log
  due (x : α) : BeforeEach (.handedOut x) (Due x) log

theorem Regular.perform {q : WorkQueue α} {log : List (Mark α)} (h : Regular q log) (a : Act α)
    (ha : q.Proper a) : Regular (q.perform a) (log ++ q.marks a) where
  orderly := h.orderly.perform a ha
  tracked := h.tracked.perform a
  due x := by
    -- A new place in the log is one where this act hands the item out: the state still tells.
    by_cases hm : .handedOut x ∈ q.marks a
    · have hs : q.marks a = [.handedOut x] := by
        obtain ⟨rfl, rest, hq⟩ := handedOut_mem_marks hm
        exact marks_take_cons hq
      rw [hs]
      exact (h.due x).concat (due_of_handedOut h.orderly h.tracked hm)
    · exact (h.due x).append_of_not_mem hm

theorem regular_empty : Regular (empty : WorkQueue α) [] :=
  ⟨orderly_empty, tracked_empty, fun _ => .nil⟩

/-- Between two times that an item is handed out it is done, and it enters again. -/
theorem Regular.between {q : WorkQueue α} {x : α} {before between after : List (Mark α)}
    (h : Regular q (before ++ .handedOut x :: between ++ .handedOut x :: after)) :
    .done x ∈ between ∧ .entered x ∈ between := by
  obtain ⟨he, hd⟩ := h.due x _ _ rfl
  exact ⟨Since.mem_of_not_append hd, Since.mem_of_append (by simp) he⟩

end DependentWatch.WorkQueue
