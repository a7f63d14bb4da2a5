import DependentWatch.Proofs.WorkQueue.Moves
/-! Wake-ups of workers. While one waits beside a queue that is not empty, a wake-up is under way,
unless one was lost on a permit; and nobody waits beside a queue that was closed. -/
namespace DependentWatch.WaitingQueue
variable {α : Type} [DecidableEq α]

/-! No wake-up is lost as long as none is sent, with nobody in line, onto a permit that is stored
while two workers or more have yet to wait. -/

def Heard (q : WaitingQueue α) : Move α → Prop
  | .notify => q.permit = true → q.parked = [] → countAt undecided q.workers ≤ 1
  | _ => True

/-- Either there are as many wake-ups under way, or workers about to look, as there are items, or
nobody waits, and nobody can come to wait without a permit. -/
structure Called (q : WaitingQueue α) : Prop where
  numbered : Numbered q.workers q.parked q.started
  enough : q.work.queue.length ≤ q.permit.toNat + countAt looking q.workers + q.owed ∨
    q.parked = [] ∧ countAt undecided q.workers ≤ q.permit.toNat

omit [DecidableEq α] in
/-- The step of a worker who does not come to wait: the queue has become so long, and there is a
permit or not. -/
theorem Called.enough_setStage {q : WaitingQueue α} (h : Called q) {w : Worker α}
    (hw : w ∈ q.workers) (s : Stage α) (length : Nat) (permit : Bool)
    (hl : 0 < length → length + (looking w.stage).toNat + q.permit.toNat ≤
      q.work.queue.length + (looking s).toNat + permit.toNat)
    (hu : (undecided s).toNat + q.permit.toNat ≤ (undecided w.stage).toNat + permit.toNat) :
    length ≤ permit.toNat + countAt looking (q.setStage w.id s).workers + q.owed ∨
      q.parked = [] ∧ countAt undecided (q.setStage w.id s).workers ≤ permit.toNat := by
  have hlooking := countAt_setStage h.numbered hw s looking
  have hundecided := countAt_setStage h.numbered hw s undecided
  obtain he | ⟨hp, he⟩ := h.enough
  · exact .inl (by omega)
  · exact .inr ⟨hp, by omega⟩

theorem Called.step {q : WaitingQueue α} (h : Called q) (id : Nat) : Called (q.stepId id) := by
  obtain hs | ⟨w, hw, hg⟩ := q.stepId_cases id
  · rwa [hs]
  have hn := h.numbered
  generalize q.stepId id = q' at hg
  cases hg with
  | rests _ => exact h
  | prepares hs =>
    refine ⟨hn.setStage_of_ne hw (by simp [hs]) (by simp),
      h.enough_setStage hw _ q.work.queue.length q.permit ?_ ?_⟩
    · simp [hs, looking]
    · simp [hs, undecided]
  | looks hs hq _ =>
    refine ⟨hn.setStage_of_ne hw (by simp [hs]) (by simp), .inl ?_⟩
    show q.work.queue.length ≤ _
    simp [hq]
  | @ends e hs o work ht _ =>
    refine ⟨hn.setStage_of_ne hw (by simp [hs]) (by simp),
      h.enough_setStage hw _ work.queue.length q.permit ?_ ?_⟩
    · simp only [ht, List.length_tail, hs, looking, Bool.toNat_true, Bool.toNat_false]
      omega
    · simp [hs, undecided]
  | usesPermit hs hp =>
    refine ⟨hn.setStage_of_ne hw (by simp [hs]) (by simp),
      h.enough_setStage hw _ q.work.queue.length false ?_ ?_⟩
    · simp [hs, hp, looking]
    · simp [hs, hp, undecided]
  | wasCalled hs _ =>
    refine ⟨hn.setStage_of_ne hw (by simp [hs]) (by simp),
      h.enough_setStage hw _ q.work.queue.length q.permit ?_ ?_⟩
    · simp only [hs, looking, Bool.toNat_true, Bool.toNat_false]
      omega
    · simp [hs, undecided]
  | parks hs hp =>
    have hout : w.id ∉ q.parked := by simp [hn.mem_parked hw, hs]
    refine ⟨hn.setStage hw ?_ ?_, .inl ?_⟩
    · exact WorkQueue.nodup_push hn.nodup_parked hout
    · intro id
      by_cases hid : id = w.id <;> simp [hid]
    · show q.work.queue.length ≤
        q.permit.toNat + countAt looking (q.setStage w.id .parked).workers + q.owed
      have hl := countAt_setStage hn hw .parked looking
      have he := h.enough
      simp only [hs, hp, looking, Bool.toNat_false] at hl he ⊢
      -- This worker has yet to wait, so the wake-ups are enough without a permit.
      have hpos : 0 < countAt undecided q.workers :=
        List.countP_pos_iff.2 ⟨w, hw, by simp [undecided, hs]⟩
      obtain he | ⟨_, he⟩ := he
      · omega
      · omega

omit [DecidableEq α] in
theorem Called.become {q : WaitingQueue α} (h : Called q) (work : WorkQueue α) :
    Called (q.become work) := by
  refine ⟨h.numbered, ?_⟩
  show work.queue.length ≤ q.permit.toNat + countAt looking q.workers +
      (q.owed + (work.queue.length - q.work.queue.length)) ∨ _
  exact h.enough.imp_left (by omega)

omit [DecidableEq α] in
theorem Called.notify {q : WaitingQueue α} (h : Called q) (hh : Heard q .notify) :
    Called q.notify := by
  have hn := h.numbered
  obtain ⟨_, hs⟩ | ⟨n, ho, ⟨hp, hs⟩ | ⟨id, rest, hp, hs⟩⟩ := q.notify_cases
  · rwa [hs]
  · rw [hs]
    refine ⟨hn, ?_⟩
    show q.work.queue.length ≤ true.toNat + countAt looking q.workers + n ∨
      q.parked = [] ∧ countAt undecided q.workers ≤ true.toNat
    have he := h.enough
    cases hperm : q.permit with
    | true => exact .inr ⟨hp, hh hperm hp⟩
    | false =>
      simp only [hperm, Bool.toNat_false, Bool.toNat_true] at he ⊢
      obtain he | he := he
      · exact .inl (by omega)
      · exact .inr ⟨hp, by omega⟩
  · obtain ⟨w, hw, rfl, hstage⟩ := (hn.mem_parked_iff id).1 (by simp [hp])
    have hnodup : w.id ∉ rest ∧ rest.Nodup := List.nodup_cons.1 (hp ▸ hn.nodup_parked)
    rw [hs]
    refine ⟨hn.setStage hw hnodup.2 ?_, .inl ?_⟩
    · intro id
      by_cases hid : id = w.id
      · simp [hid, hnodup.1]
      · simp [hid, hp]
    · show q.work.queue.length ≤
        q.permit.toNat + countAt looking (q.setStage w.id .idle).workers + n
      have hl := countAt_setStage hn hw .idle looking
      simp only [hstage, looking, Bool.toNat_true, Bool.toNat_false] at hl
      obtain he | ⟨hnone, _⟩ := h.enough
      · omega
      · simp [hnone] at hp

omit [DecidableEq α] in
theorem Called.start {q : WaitingQueue α} (h : Called q) (name : String) :
    Called (q.start name) := by
  have hn := h.numbered
  have hfresh : q.started ∉ q.workers.map (·.id) := by
    intro hm
    obtain ⟨w, hw, he⟩ := List.mem_map.1 hm
    exact Nat.lt_irrefl _ (he ▸ hn.id_lt w hw)
  refine ⟨⟨?_, ?_, hn.nodup_parked, fun id => ?_⟩, ?_⟩
  · simp only [WaitingQueue.start, List.map_append]
    exact WorkQueue.nodup_push hn.nodup hfresh
  · intro w hw
    obtain hw | hw := List.mem_append.1 hw
    · exact Nat.lt_succ_of_lt (hn.id_lt w hw)
    · rw [List.mem_singleton.1 hw]
      exact Nat.lt_succ_self _
  · rw [show (q.start name).parked = q.parked from rfl, hn.mem_parked_iff]
    simp [WaitingQueue.start, or_and_right, exists_or]
  · show q.work.queue.length ≤ q.permit.toNat +
        countAt looking (q.workers ++ [⟨q.started, name, .idle⟩]) + q.owed ∨
      q.parked = [] ∧
        countAt undecided (q.workers ++ [⟨q.started, name, .idle⟩]) ≤ q.permit.toNat
    have hl : countAt looking (q.workers ++ [⟨q.started, name, .idle⟩]) =
        countAt looking q.workers + 1 := by simp [countAt, looking]
    have hu : countAt undecided (q.workers ++ [⟨q.started, name, .idle⟩]) =
        countAt undecided q.workers := by simp [countAt, undecided]
    rw [hl, hu]
    exact h.enough.imp_left (by omega)

theorem mem_workers_wakeAll {q : WaitingQueue α} {v : Worker α} (h : v ∈ q.wakeAll.workers) :
    ∃ w ∈ q.workers, v.id = w.id ∧
      (w.stage = .parked ∧ v.stage = .idle ∨ w.stage ≠ .parked ∧ v.stage = w.stage) := by
  obtain ⟨w, hw, rfl⟩ := List.mem_map.1 h
  by_cases hs : w.stage = .parked
  · exact ⟨w, hw, by simp [hs], .inl ⟨hs, by simp [hs]⟩⟩
  · exact ⟨w, hw, by simp [hs], .inr ⟨hs, by simp [hs]⟩⟩

theorem Called.wakeAll {q : WaitingQueue α} (h : Called q) : Called q.wakeAll := by
  refine ⟨⟨?_, ?_, List.nodup_nil, fun id => ?_⟩, ?_⟩
  · have hid : q.wakeAll.workers.map (·.id) = q.workers.map (·.id) := by
      rw [WaitingQueue.wakeAll, List.map_map]
      refine List.map_congr_left fun w _ => ?_
      simp only [Function.comp_apply]
      split <;> rfl
    rw [hid]
    exact h.numbered.nodup
  · intro v hv
    obtain ⟨w, hw, he, _⟩ := mem_workers_wakeAll hv
    exact he ▸ h.numbered.id_lt w hw
  · constructor
    · exact fun hid => absurd hid List.not_mem_nil
    · intro hv
      obtain ⟨v, hv, _, hs⟩ := hv
      obtain ⟨w, _, _, ⟨_, hi⟩ | ⟨hn, hi⟩⟩ := mem_workers_wakeAll hv
      · simp [hs] at hi
      · exact absurd (hi.symm.trans hs) hn
  · have hl : countAt looking q.workers ≤ countAt looking q.wakeAll.workers := by
      rw [countAt, countAt, WaitingQueue.wakeAll, List.countP_map]
      refine List.countP_mono_left fun w _ hw => ?_
      by_cases hs : w.stage = .parked <;> simp_all [looking]
    have hu : countAt undecided q.wakeAll.workers ≤ countAt undecided q.workers := by
      rw [countAt, countAt, WaitingQueue.wakeAll, List.countP_map]
      refine List.countP_mono_left fun w _ hw => ?_
      by_cases hs : w.stage = .parked <;> simp_all [undecided]
    show q.work.queue.length ≤ q.permit.toNat + countAt looking q.wakeAll.workers + q.owed ∨
      [] = [] ∧ countAt undecided q.wakeAll.workers ≤ q.permit.toNat
    obtain he | ⟨_, he⟩ := h.enough
    · exact .inl (by omega)
    · exact .inr ⟨rfl, by omega⟩

theorem Called.move {q : WaitingQueue α} (h : Called q) {m : Move α} (hh : Heard q m) :
    Called (q.move m) := by
  cases m with
  | start name => exact h.start name
  | step id => exact h.step id
  | add x => exact h.become _
  | done x => exact h.become _
  | notify => exact h.notify hh
  | close => exact ⟨h.numbered, h.enough⟩
  | wakeAll => exact h.wakeAll

omit [DecidableEq α] in
theorem called_empty : Called (empty : WaitingQueue α) where
  numbered := ⟨List.nodup_nil, by simp [empty], List.nodup_nil, by simp [empty]⟩
  enough := .inl (Nat.zero_le _)

/-- However workers come and look, items are added and done and wake-ups are sent: while a worker
waits and an item is queued, a wake-up is owed, or a permit is stored, or a worker is about to look,
as long as no wake-up was sent onto a stored permit while two workers or more had yet to wait. -/
theorem waiting_workers_are_called (ms : List (Move α)) (heard : moves.Throughout Heard empty ms)
    (waits : ∃ w ∈ (moves.run empty ms).workers, w.stage = .parked)
    (item : (moves.run empty ms).work.queue ≠ []) :
    0 < (moves.run empty ms).owed ∨ (moves.run empty ms).permit = true ∨
      ∃ w ∈ (moves.run empty ms).workers, looking w.stage = true := by
  have h : Called (moves.run empty ms) :=
    moves.invariant (I := fun q _ => Called q) (l := []) (fun _ _ _ h hh => h.move hh) called_empty
      heard
  generalize moves.run empty ms = q at *
  obtain ⟨w, hw, hs⟩ := waits
  have hq : 0 < q.work.queue.length := List.length_pos_iff.2 item
  have hp : w.id ∈ q.parked := (h.numbered.mem_parked hw).2 hs
  obtain he | ⟨hnone, _⟩ := h.enough
  · cases hperm : q.permit with
    | true => exact .inr (.inl rfl)
    | false =>
      by_cases ho : 0 < q.owed
      · exact .inl ho
      · have hl : 0 < countAt looking q.workers := by
          rw [hperm, Bool.toNat_false] at he
          omega
        exact .inr (.inr (List.countP_pos_iff.1 hl))
  · simp [hnone] at hp

/-- Two workers look in vain, and then two items are pushed: the second wake-up is lost on the
permit of the first. One worker takes an item, and the other one waits beside a queue that is not
empty. -/
theorem wake_up_lost_on_permit :
    let ms : List (Move Nat) := [.start "a", .start "b", .step 0, .step 0, .step 1, .step 1,
      .add 1, .notify, .add 2, .notify, .step 0, .step 1, .step 0, .step 0]
    let q := moves.run empty ms
    (∃ w ∈ q.workers, w.stage = .parked) ∧ q.work.queue = [2] ∧ q.owed = 0 ∧ q.permit = false ∧
      ∀ w ∈ q.workers, looking w.stage = false := by
  decide

/-! Nobody waits once the queue is closed and all have been woken: those who look then are at their
end, and those who had looked before know that they were woken. -/

/-- The stages that workers can come to by one move. -/
inductive Comes (q : WaitingQueue α) : Stage α → Prop where
  | stays {w : Worker α} (hw : w ∈ q.workers) : Comes q w.stage
  | idle : Comes q .idle
  | prepares : Comes q (.prepared q.epoch)
  | looks {w : Worker α} {e : Nat} (hw : w ∈ q.workers) (h : w.stage = .prepared e)
      (opened : q.work.shuttingDown = false) : Comes q (.checked e)
  | parks {w : Worker α} (hw : w ∈ q.workers) (h : w.stage = .checked q.epoch) : Comes q .parked
  | ends (o : Handout α) : Comes q (.finished o)

omit [DecidableEq α] in
theorem Comes.setStage {q : WaitingQueue α} {id : Nat} {s : Stage α} (hs : Comes q s)
    {v : Worker α} (hv : v ∈ (q.setStage id s).workers) : Comes q v.stage := by
  obtain ⟨_, hv⟩ | ⟨w, _, _, rfl⟩ := mem_setStage.1 hv
  · exact .stays hv
  · exact hs

theorem comes_move {q : WaitingQueue α} {m : Move α} {v : Worker α}
    (hv : v ∈ (q.move m).workers) : Comes q v.stage := by
  cases m with
  | start name =>
    obtain hv | hv := List.mem_append.1 hv
    · exact .stays hv
    · rw [List.mem_singleton.1 hv]
      exact .idle
  | add x => exact .stays hv
  | done x => exact .stays hv
  | close => exact .stays hv
  | notify =>
    obtain ⟨_, hs⟩ | ⟨n, _, ⟨_, hs⟩ | ⟨id, rest, _, hs⟩⟩ := q.notify_cases
    · exact .stays (hs ▸ hv)
    · rw [move, hs] at hv
      exact .stays hv
    · rw [move, hs] at hv
      exact Comes.idle.setStage hv
  | wakeAll =>
    obtain ⟨w, hw, _, ⟨_, hs⟩ | ⟨_, hs⟩⟩ := mem_workers_wakeAll hv
    · exact hs ▸ .idle
    · exact hs ▸ .stays hw
  | step id =>
    obtain hs | ⟨w, hw, hg⟩ := q.stepId_cases id
    · exact .stays (hs ▸ hv)
    replace hv : v ∈ (q.stepId id).workers := hv
    generalize q.stepId id = q' at hg hv
    cases hg with
    | rests _ => exact .stays hv
    | prepares _ => exact Comes.prepares.setStage hv
    | looks h _ opened => exact (Comes.looks hw h opened).setStage hv
    | ends _ o _ _ => exact (Comes.ends o).setStage hv
    | usesPermit _ _ => exact Comes.idle.setStage hv
    | wasCalled _ _ => exact Comes.idle.setStage hv
    | parks h _ => exact (Comes.parks hw h).setStage hv

theorem epoch_le_move (q : WaitingQueue α) (m : Move α) : q.epoch ≤ (q.move m).epoch := by
  cases m with
  | notify =>
    obtain ⟨_, hs⟩ | ⟨n, _, ⟨_, hs⟩ | ⟨id, rest, _, hs⟩⟩ := q.notify_cases
    all_goals exact Nat.le_of_eq (congrArg epoch hs).symm
  | wakeAll => exact Nat.le_succ _
  | step id =>
    obtain hs | ⟨w, _, hg⟩ := q.stepId_cases id
    · exact Nat.le_of_eq (congrArg epoch hs).symm
    show q.epoch ≤ (q.stepId id).epoch
    generalize q.stepId id = q' at hg
    cases hg <;> exact Nat.le_refl _
  | _ => exact Nat.le_refl _

theorem shuttingDown_move {q : WaitingQueue α} (h : q.work.shuttingDown = true) (m : Move α) :
    (q.move m).work.shuttingDown = true := by
  cases m with
  | add x => exact (q.work.shuttingDown_add x).trans h
  | close => rfl
  | notify =>
    obtain ⟨_, hs⟩ | ⟨n, _, ⟨_, hs⟩ | ⟨id, rest, _, hs⟩⟩ := q.notify_cases
    all_goals
      rw [move, hs]
      exact h
  | step id =>
    obtain hs | ⟨w, _, hg⟩ := q.stepId_cases id
    · rw [move, hs]
      exact h
    show (q.stepId id).work.shuttingDown = true
    generalize q.stepId id = q' at hg
    cases hg with
    | ends _ _ _ closing => exact closing.trans h
    | _ => exact h
  | _ => exact h

/-- No worker has prepared a wait after more calls to all than there were. -/
def Timely (q : WaitingQueue α) : Prop :=
  ∀ w ∈ q.workers, ∀ e, w.stage = .prepared e ∨ w.stage = .checked e → e ≤ q.epoch

theorem Timely.move {q : WaitingQueue α} (h : Timely q) (m : Move α) : Timely (q.move m) := by
  intro v hv e he
  refine Nat.le_trans ?_ (q.epoch_le_move m)
  have hc := comes_move hv
  generalize v.stage = s at hc he
  cases hc with
  | stays hw => exact h _ hw e he
  | prepares => simp_all
  | looks hw hs _ =>
    obtain rfl : _ = e := by simpa using he
    exact h _ hw _ (.inl hs)
  | _ => simp at he

/-- The queue is closed, nobody waits, and those who have looked were woken since. -/
structure Released (q : WaitingQueue α) : Prop where
  closed : q.work.shuttingDown = true
  awake : ∀ w ∈ q.workers, w.stage ≠ .parked
  woken : ∀ w ∈ q.workers, ∀ e, w.stage = .checked e → e < q.epoch

theorem Released.move {q : WaitingQueue α} (h : Released q) (m : Move α) :
    Released (q.move m) where
  closed := shuttingDown_move h.closed m
  awake v hv := by
    have hc := comes_move hv
    generalize v.stage = s at hc
    cases hc with
    | stays hw => exact h.awake _ hw
    | parks hw hs => exact absurd (h.woken _ hw _ hs) (Nat.lt_irrefl _)
    | _ => simp
  woken v hv e he := by
    refine Nat.lt_of_lt_of_le ?_ (q.epoch_le_move m)
    have hc := comes_move hv
    generalize v.stage = s at hc he
    cases hc with
    | stays hw => exact h.woken _ hw e he
    | looks hw hs opened => simp [h.closed] at opened
    | _ => simp at he

theorem released_wakeAll {q : WaitingQueue α} (h : Timely q) (hc : q.work.shuttingDown = true) :
    Released q.wakeAll where
  closed := hc
  awake v hv := by
    obtain ⟨w, _, _, ⟨_, hs⟩ | ⟨hn, hs⟩⟩ := mem_workers_wakeAll hv
    · simp [hs]
    · exact hs ▸ hn
  woken v hv e he := by
    obtain ⟨w, hw, _, ⟨_, hs⟩ | ⟨_, hs⟩⟩ := mem_workers_wakeAll hv
    · simp [hs] at he
    · exact Nat.lt_succ_of_le (h w hw e (.inr (hs.symm.trans he)))

/-- A property that every move keeps holds after each run. -/
theorem run_of_move {I : WaitingQueue α → Prop} (keep : ∀ q m, I q → I (q.move m))
    {q : WaitingQueue α} (h : I q) (ms : List (Move α)) : I (moves.run q ms) :=
  moves.invariant (A := fun _ _ => True) (I := fun q _ => I q) (l := [])
    (fun q _ m h _ => keep q m h) h (moves.throughout_of_forall (fun _ _ _ => trivial) q)

/-- After the queue was closed and then all were woken, nobody waits any more, whatever happened
before, in between and since. -/
theorem nobody_waits_after_close (before between after : List (Move α)) :
    ∀ w ∈ (moves.run empty
      (before ++ .close :: (between ++ .wakeAll :: after))).workers, w.stage ≠ .parked := by
  rw [System.run_append, System.run, System.run_append, System.run]
  have ht : Timely (moves.run (empty : WaitingQueue α) before) :=
    run_of_move (I := Timely) (fun _ m h => h.move m) (by simp [Timely, empty]) before
  have hclose := run_of_move (I := fun q => Timely q ∧ q.work.shuttingDown = true)
    (fun _ m h => ⟨h.1.move m, shuttingDown_move h.2 m⟩) ⟨ht.move .close, rfl⟩ between
  have hreleased := released_wakeAll hclose.1 hclose.2
  exact (run_of_move (I := Released) (fun _ m h => h.move m) hreleased after).awake

end DependentWatch.WaitingQueue
