import DependentWatch.Proofs.WorkQueue.Acts
import DependentWatch.WorkQueue.Waiting
import Mathlib.Data.List.Nodup
/-! The moves of workers and of those who bring items, where all goes on side by side: an item is
pushed first and its wake-up is sent later, and a worker looks at the queue before it waits. -/
namespace DependentWatch.WaitingQueue
variable {α : Type} [DecidableEq α]

/-- What happens in one piece. -/
inductive Move (α : Type) where
  | start (name : String)
  | step (id : Nat)
  | add (x : α)
  | done (x : α)
  | notify
  | close
  | wakeAll

def move (q : WaitingQueue α) : Move α → WaitingQueue α
  | .start name => q.start name
  | .step id => q.stepId id
  | .add x => q.become (q.work.add x)
  | .done x => q.become (q.work.done x)
  | .notify => q.notify
  | .close => { q with work := q.work.shutDown }
  | .wakeAll => q.wakeAll

def moves : System (WaitingQueue α) (Move α) Empty := ⟨move, fun _ _ => []⟩

theorem run_replicate_notify (q : WaitingQueue α) (n : Nat) :
    moves.run q (.replicate n .notify) = n.repeat notify q := by
  induction n with
  | zero => rfl
  | succ n ih =>
    rw [List.replicate_succ', System.run_append, ih]
    rfl

/-- An item is added in pieces: the push, and then all the wake-ups that are owed. -/
theorem add_eq_run (q : WaitingQueue α) (x : α) :
    q.add x = moves.run q (.add x :: .replicate (q.become (q.work.add x)).owed .notify) :=
  (run_replicate_notify _ _).symm

theorem done_eq_run (q : WaitingQueue α) (x : α) :
    q.done x = moves.run q (.done x :: .replicate (q.become (q.work.done x)).owed .notify) :=
  (run_replicate_notify _ _).symm

theorem shutDown_eq_run (q : WaitingQueue α) : q.shutDown = moves.run q [.close, .wakeAll] := rfl

/-! The workers: each has a number of its own, and those who wait are in line. -/


structure Numbered (workers : List (Worker α)) (parked : List Nat) (started : Nat) : Prop where
  nodup : (workers.map (·.id)).Nodup
  id_lt : ∀ w ∈ workers, w.id < started
  nodup_parked : parked.Nodup
  mem_parked_iff (id : Nat) : id ∈ parked ↔ ∃ w ∈ workers, w.id = id ∧ w.stage = .parked

omit [DecidableEq α] in
theorem map_id_setStage (q : WaitingQueue α) (id : Nat) (s : Stage α) :
    (q.setStage id s).workers.map (·.id) = q.workers.map (·.id) := by
  rw [setStage, List.map_map]
  refine List.map_congr_left fun w _ => ?_
  simp only [Function.comp_apply]
  split <;> rfl

omit [DecidableEq α] in
theorem mem_setStage {q : WaitingQueue α} {id : Nat} {s : Stage α} {v : Worker α} :
    v ∈ (q.setStage id s).workers ↔
      v.id ≠ id ∧ v ∈ q.workers ∨ ∃ w ∈ q.workers, w.id = id ∧ v = { w with stage := s } := by
  simp only [setStage, List.mem_map]
  constructor
  · intro h
    obtain ⟨w, hw, rfl⟩ := h
    by_cases he : w.id = id
    · exact .inr ⟨w, hw, he, if_pos he⟩
    · rw [if_neg he]
      exact .inl ⟨he, hw⟩
  · intro h
    obtain ⟨he, hv⟩ | ⟨w, hw, he, rfl⟩ := h
    · exact ⟨v, hv, if_neg he⟩
    · exact ⟨w, hw, if_pos he⟩

omit [DecidableEq α] in
/-- A worker goes over to another stage, and joins or leaves the line with it. -/
theorem Numbered.setStage {q : WaitingQueue α} (h : Numbered q.workers q.parked q.started)
    {w : Worker α} (hw : w ∈ q.workers) {s : Stage α} {parked : List Nat} (hn : parked.Nodup)
    (hp : ∀ id, id ∈ parked ↔ if id = w.id then s = .parked else id ∈ q.parked) :
    Numbered (q.setStage w.id s).workers parked q.started where
  nodup := by
    rw [map_id_setStage]
    exact h.nodup
  id_lt v hv := by
    obtain ⟨_, hv⟩ | ⟨u, hu, _, rfl⟩ := mem_setStage.1 hv
    · exact h.id_lt v hv
    · exact h.id_lt u hu
  nodup_parked := hn
  mem_parked_iff id := by
    rw [hp]
    split
    · next he =>
      subst he
      constructor
      · intro hs
        exact ⟨_, mem_setStage.2 (.inr ⟨w, hw, rfl, rfl⟩), rfl, hs⟩
      · intro hv
        obtain ⟨v, hv, he, hs⟩ := hv
        obtain ⟨hne, _⟩ | ⟨u, _, _, rfl⟩ := mem_setStage.1 hv
        · exact absurd he hne
        · exact hs
    · next he =>
      rw [h.mem_parked_iff]
      constructor
      · intro hv
        obtain ⟨v, hv, rfl, hs⟩ := hv
        exact ⟨v, mem_setStage.2 (.inl ⟨he, hv⟩), rfl, hs⟩
      · intro hv
        obtain ⟨v, hv, rfl, hs⟩ := hv
        obtain ⟨_, hv⟩ | ⟨u, _, hu, rfl⟩ := mem_setStage.1 hv
        · exact ⟨v, hv, rfl, hs⟩
        · exact absurd hu he

omit [DecidableEq α] in
theorem Numbered.mem_parked {workers : List (Worker α)} {parked : List Nat} {started : Nat}
    (h : Numbered workers parked started) {w : Worker α} (hw : w ∈ workers) :
    w.id ∈ parked ↔ w.stage = .parked := by
  rw [h.mem_parked_iff]
  constructor
  · intro hv
    obtain ⟨v, hv, he, hs⟩ := hv
    rwa [← List.inj_on_of_nodup_map h.nodup hv hw he]
  · exact fun hs => ⟨w, hw, rfl, hs⟩

omit [DecidableEq α] in
/-- A worker who does not wait goes over to a stage where he does not. -/
theorem Numbered.setStage_of_ne {q : WaitingQueue α} (h : Numbered q.workers q.parked q.started)
    {w : Worker α} (hw : w ∈ q.workers) (hn : w.stage ≠ .parked) {s : Stage α} (hs : s ≠ .parked) :
    Numbered (q.setStage w.id s).workers q.parked q.started := by
  refine h.setStage hw h.nodup_parked fun id => ?_
  by_cases he : id = w.id
  · simp [he, hs, h.mem_parked hw, hn]
  · simp [he]

/-- How many workers are at a stage of a kind. -/
def countAt (p : Stage α → Bool) (workers : List (Worker α)) : Nat := workers.countP (p ·.stage)

omit [DecidableEq α] in
theorem countAt_setStage {q : WaitingQueue α} (h : Numbered q.workers q.parked q.started)
    {w : Worker α} (hw : w ∈ q.workers) (s : Stage α) (p : Stage α → Bool) :
    countAt p (q.setStage w.id s).workers + (p w.stage).toNat =
      countAt p q.workers + (p s).toNat := by
  obtain ⟨before, after, hs⟩ := List.append_of_mem hw
  have hn := h.nodup
  rw [hs, List.map_append, List.map_cons, List.nodup_append, List.nodup_cons] at hn
  obtain ⟨_, ⟨hafter, _⟩, hbefore⟩ := hn
  have hmap (l : List (Worker α)) (hl : w.id ∉ l.map (·.id)) :
      l.map (fun v => if v.id = w.id then { v with stage := s } else v) = l := by
    refine (List.map_congr_left fun v hv => if_neg fun he => hl ?_).trans (List.map_id l)
    exact List.mem_map.2 ⟨v, hv, he⟩
  have hset : (q.setStage w.id s).workers = before ++ { w with stage := s } :: after := by
    rw [setStage, hs, List.map_append, List.map_cons, if_pos rfl, hmap after hafter,
      hmap before fun hm => hbefore _ hm _ List.mem_cons_self rfl]
  simp only [countAt, hset, hs, List.countP_append, List.countP_cons]
  cases p w.stage <;> cases p s <;> simp <;> omega

/-! What the moves do to the queue, the wake-ups and the workers. -/

/-- The worker is about to look at the queue. -/
def looking : Stage α → Bool
  | .idle | .prepared _ => true
  | _ => false

/-- The worker has looked in vain and does not wait yet. -/
def undecided : Stage α → Bool
  | .checked _ => true
  | _ => false

/-- The step of a worker, by its stage. -/
inductive Goes (q : WaitingQueue α) (w : Worker α) : WaitingQueue α → Prop where
  | rests (h : w.stage = .parked ∨ ∃ o, w.stage = .finished o) : Goes q w q
  | prepares (h : w.stage = .idle) : Goes q w (q.setStage w.id (.prepared q.epoch))
  | looks {e : Nat} (h : w.stage = .prepared e) (empty : q.work.queue = [])
      (opened : q.work.shuttingDown = false) : Goes q w (q.setStage w.id (.checked e))
  | ends {e : Nat} (h : w.stage = .prepared e) (o : Handout α) {work : WorkQueue α}
      (tail : work.queue = q.work.queue.tail)
      (closing : work.shuttingDown = q.work.shuttingDown) :
      Goes q w ({ q with work }.setStage w.id (.finished o))
  | usesPermit {e : Nat} (h : w.stage = .checked e) (permit : q.permit = true) :
      Goes q w { q.setStage w.id .idle with permit := false }
  | wasCalled {e : Nat} (h : w.stage = .checked e) (epoch : e ≠ q.epoch) :
      Goes q w (q.setStage w.id .idle)
  | parks (h : w.stage = .checked q.epoch) (permit : q.permit = false) :
      Goes q w { q.setStage w.id .parked with parked := q.parked ++ [w.id] }

theorem goes_step (q : WaitingQueue α) (w : Worker α) : Goes q w (q.step w) := by
  unfold step
  cases hs : w.stage with
  | idle => exact .prepares hs
  | prepared e =>
    cases hq : q.work.queue with
    | cons x rest =>
      simp only [WorkQueue.take_cons hq]
      exact .ends hs _ (by rw [hq]; rfl) rfl
    | nil =>
      cases hc : q.work.shuttingDown with
      | true =>
        simp only [WorkQueue.take_nil hq, hc, if_true]
        exact .ends hs _ (by rw [hq]; rfl) rfl
      | false =>
        simp only [WorkQueue.take_nil hq, hc, Bool.false_eq_true, if_false]
        exact .looks hs hq hc
  | checked e =>
    cases hp : q.permit with
    | true => exact .usesPermit hs hp
    | false =>
      by_cases he : e = q.epoch
      · subst he
        simp only [ne_eq, not_true, if_false, Bool.false_eq_true]
        exact .parks hs hp
      · simp only [ne_eq, he, not_false_eq_true, if_true, Bool.false_eq_true, if_false]
        exact .wasCalled hs he
  | parked => exact .rests (.inl hs)
  | finished o => exact .rests (.inr ⟨o, hs⟩)

theorem stepId_cases (q : WaitingQueue α) (id : Nat) :
    q.stepId id = q ∨ ∃ w ∈ q.workers, Goes q w (q.stepId id) := by
  unfold stepId
  cases hf : q.workers.find? (·.id = id) with
  | none => exact .inl rfl
  | some w => exact .inr ⟨w, List.mem_of_find?_eq_some hf, q.goes_step w⟩

omit [DecidableEq α] in
theorem notify_cases (q : WaitingQueue α) :
    q.owed = 0 ∧ q.notify = q ∨
    ∃ n, q.owed = n + 1 ∧
      (q.parked = [] ∧ q.notify = { q with owed := n, permit := true } ∨
        ∃ id rest, q.parked = id :: rest ∧
          q.notify = { q.setStage id .idle with owed := n, parked := rest }) := by
  unfold notify
  cases ho : q.owed with
  | zero => exact .inl ⟨rfl, rfl⟩
  | succ n =>
    refine .inr ⟨n, rfl, ?_⟩
    cases hp : q.parked with
    | nil => exact .inl ⟨rfl, by simp [wakeOne]⟩
    | cons id rest => exact .inr ⟨id, rest, rfl, by simp [wakeOne, hp, setStage]⟩

end DependentWatch.WaitingQueue
