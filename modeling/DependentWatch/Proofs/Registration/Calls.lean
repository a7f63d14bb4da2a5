import DependentWatch.Proofs.History
import DependentWatch.Proofs.Registration.Steps
/-! Calls that register dependents side by side, in any order of their steps and with any answers.
Each kind is subscribed to once for each owner kind. -/
namespace DependentWatch

structure Calls (σ : Type) where
  registrar : Registrar σ
  jobs : List Job

namespace Calls
variable {σ : Type}

/-- What can happen: a new call, a step of a call, the answer to a call, the end of a call that is
dropped, and a change in the world that is asked. -/
inductive Act (σ : Type) where
  | call (task : Registration)
  | step (i : Nat)
  | answer (i : Nat)
  | drop (i : Nat)
  | change (world : σ)

/-- A subscription for an owner kind was called for, or was made. -/
inductive Mark where
  | called (owner kind : GroupVersionKind)
  | subscribed (owner kind : GroupVersionKind)
deriving DecidableEq

def start (world : σ) : Calls σ := ⟨.start world, []⟩

def replace (c : Calls σ) (i : Nat) (next : Registrar σ × Job) : Calls σ :=
  ⟨next.1, c.jobs.set i next.2⟩

variable (b : Backend σ)

def perform (c : Calls σ) : Act σ → Calls σ
  | .call task => { c with jobs := c.jobs ++ [.start task] }
  | .step i =>
    match c.jobs[i]? with
    | some j => c.replace i (c.registrar.step b j)
    | none => c
  | .answer i =>
    match c.jobs[i]? with
    | some j => c.replace i (c.registrar.answer b j)
    | none => c
  | .drop i =>
    match c.jobs[i]? with
    | some j => ⟨c.registrar.release j, c.jobs.eraseIdx i⟩
    | none => c
  | .change world => { c with registrar := { c.registrar with world } }

def stepMarks (j : Job) : List Mark :=
  match j.pass with
  | .subscribe s _ => [.called j.task.owner s.kind]
  | _ => []

def answerMarks (g : Registrar σ) (j : Job) : List Mark :=
  match j.pass with
  | .subscribing s _ =>
    match (b.answer g.world s).1 with
    | .ok () => [.subscribed j.task.owner s.kind]
    | .error _ => []
  | _ => []

def marks (c : Calls σ) : Act σ → List Mark
  | .step i => (c.jobs[i]?.map stepMarks).getD []
  | .answer i => (c.jobs[i]?.map (answerMarks b c.registrar)).getD []
  | _ => []

def system : System (Calls σ) (Act σ) Mark := ⟨perform b, marks b⟩

/-! What is registered: nothing changes but by a subscription that was made. -/

theorem answer_set_cases (g : Registrar σ) (j : Job) :
    answerMarks b g j = [] ∧ (∀ o, (g.answer b j).1.set o = g.set o) ∨
    ∃ k, j.pass.kind? = some k ∧ answerMarks b g j = [.subscribed j.task.owner k] ∧
      ∀ o, (g.answer b j).1.set o =
        if o = j.task.owner then (g.set j.task.owner).insert k else g.set o := by
  obtain ⟨hn, h⟩ | ⟨s, rest, world, hp, ⟨e, ha, h⟩ | ⟨ha, h⟩⟩ := g.answer_cases b j
  · refine .inl ⟨?_, fun o => by rw [h]⟩
    unfold answerMarks
    split
    · next s rest hp => exact absurd hp (hn s rest)
    · rfl
  · refine .inl ⟨by simp [answerMarks, hp, ha], fun o => ?_⟩
    rw [h, Registrar.set_moveTo, Registrar.set_putSet]
    split
    · next ho => rw [ho]
    · rfl
  · refine .inr ⟨s.kind, by rw [hp]; rfl, by simp [answerMarks, hp, ha], fun o => ?_⟩
    rw [h, Registrar.set_moveTo, Registrar.set_putSet]
    rfl

theorem not_subscribed_mem_stepMarks (j : Job) (o k : GroupVersionKind) :
    .subscribed o k ∉ stepMarks j := by
  unfold stepMarks
  split <;> simp

/-- What an act does to the kinds that are registered. -/
theorem set_cases (c : Calls σ) (a : Act σ) :
    (∀ o k, .subscribed o k ∉ marks b c a) ∧
      (∀ o, (perform b c a).registrar.set o = c.registrar.set o) ∨
    ∃ j ∈ c.jobs, ∃ k, j.pass.kind? = some k ∧ marks b c a = [.subscribed j.task.owner k] ∧
      ∀ o, (perform b c a).registrar.set o =
        if o = j.task.owner then (c.registrar.set j.task.owner).insert k else c.registrar.set o := by
  cases a with
  | call task => exact .inl ⟨by simp [marks], fun _ => rfl⟩
  | change world => exact .inl ⟨by simp [marks], fun _ => rfl⟩
  | step i =>
    simp only [marks, perform]
    cases h : c.jobs[i]? with
    | none => exact .inl ⟨by simp, fun _ => rfl⟩
    | some j => exact .inl ⟨fun o k => not_subscribed_mem_stepMarks j o k, c.registrar.set_step b j⟩
  | answer i =>
    simp only [marks, perform]
    cases h : c.jobs[i]? with
    | none => exact .inl ⟨by simp, fun _ => rfl⟩
    | some j =>
      obtain ⟨hm, hs⟩ | ⟨k, hk, hm, hs⟩ := answer_set_cases b c.registrar j
      · exact .inl ⟨by simp [hm], hs⟩
      · exact .inr ⟨j, List.mem_of_getElem? h, k, hk, hm, hs⟩
  | drop i =>
    simp only [marks, perform]
    cases h : c.jobs[i]? with
    | none => exact .inl ⟨by simp, fun _ => rfl⟩
    | some j =>
      refine .inl ⟨by simp, fun o => ?_⟩
      simp only [Registrar.release]
      split <;> rfl

theorem mem_set_perform {c : Calls σ} {o k : GroupVersionKind} (h : k ∈ c.registrar.set o)
    (a : Act σ) : k ∈ (perform b c a).registrar.set o := by
  obtain ⟨_, hs⟩ | ⟨j, _, l, _, _, hs⟩ := set_cases b c a
  · rwa [hs]
  · rw [hs]
    split
    · next ho => exact (KindSet.mem_insert ..).2 (.inr (ho ▸ h))
    · exact h

theorem set_perform {c : Calls σ} {a : Act σ} {o : GroupVersionKind}
    (h : ∀ k, .subscribed o k ∉ marks b c a) :
    (perform b c a).registrar.set o = c.registrar.set o := by
  obtain ⟨_, hs⟩ | ⟨j, _, k, _, hm, hs⟩ := set_cases b c a
  · exact hs o
  · rw [hs, if_neg]
    intro ho
    exact h k (by simp [hm, ho])

/-! The turns: there is a job for each owner kind that is busy, and only one. -/

structure Orderly (c : Calls σ) : Prop where
  count (o : GroupVersionKind) : c.jobs.countP (·.hasTurn o) = c.registrar.busy.count o
  nodup : c.registrar.busy.Nodup

theorem take_append_drop_of_getElem? {jobs : List Job} {i : Nat} {j : Job} (h : jobs[i]? = some j) :
    jobs = jobs.take i ++ j :: jobs.drop (i + 1) ∧
      ∀ x, jobs.set i x = jobs.take i ++ x :: jobs.drop (i + 1) := by
  obtain ⟨hi, rfl⟩ := List.getElem?_eq_some_iff.1 h
  refine ⟨?_, fun x => ?_⟩
  · rw [← List.drop_eq_getElem_cons hi, List.take_append_drop]
  · rw [List.set_eq_take_append_cons_drop, if_pos hi]

theorem exists_split {jobs : List Job} {i : Nat} {j : Job} (h : jobs[i]? = some j) :
    ∃ before after, jobs = before ++ j :: after ∧ (∀ x, jobs.set i x = before ++ x :: after) ∧
      jobs.eraseIdx i = before ++ after := by
  obtain ⟨hj, hset⟩ := take_append_drop_of_getElem? h
  exact ⟨jobs.take i, jobs.drop (i + 1), hj, hset, List.eraseIdx_eq_take_drop_succ ..⟩

theorem Orderly.turns_split {c : Calls σ} (h : Orderly c) {before after : List Job} {j : Job}
    (hs : c.jobs = before ++ j :: after) (o : GroupVersionKind) :
    before.countP (·.hasTurn o) + (after.countP (·.hasTurn o) + j.turns o) =
      c.registrar.busy.count o := by
  rw [← h.count o, hs, List.countP_append, List.countP_cons]
  rfl

theorem Orderly.owner_mem {c : Calls σ} (h : Orderly c) {j : Job} (hj : j ∈ c.jobs)
    (hk : j.pass.kind?.isSome) : j.task.owner ∈ c.registrar.busy := by
  obtain ⟨before, after, hs⟩ := List.append_of_mem hj
  have hc := h.turns_split hs j.task.owner
  have ht : j.turns j.task.owner = 1 := by rw [Job.turns_eq_ite hk, if_pos rfl]
  exact List.count_pos_iff.1 (by omega)

/-- No other job has its turn for the same owner kind. -/
theorem Orderly.alone {c : Calls σ} (h : Orderly c) {before after : List Job} {j j' : Job}
    (hs : c.jobs = before ++ j :: after) (hj : j.pass.kind?.isSome) (hm : j' ∈ before ++ after)
    (hj' : j'.pass.kind?.isSome) : j'.task.owner ≠ j.task.owner := by
  intro he
  have hc := h.turns_split hs j.task.owner
  have hle : c.registrar.busy.count j.task.owner ≤ 1 := by
    rw [h.nodup.count]
    split <;> omega
  have ht : j.turns j.task.owner = 1 := by rw [Job.turns_eq_ite hj, if_pos rfl]
  have ht' : j'.hasTurn j.task.owner = true := by simp [Job.hasTurn, hj', he]
  have hz : (before ++ after).countP (·.hasTurn j.task.owner) = 0 := by
    rw [List.countP_append]
    omega
  exact List.countP_eq_zero.1 hz j' hm ht'

theorem Orderly.replace {c : Calls σ} (h : Orderly c) {i : Nat} {j : Job} (hj : c.jobs[i]? = some j)
    {g : Registrar σ} {j' : Job} (hm : Registrar.Moves c.registrar j g j') :
    Orderly (c.replace i (g, j')) where
  count o := by
    obtain ⟨before, after, hs, hset, _⟩ := exists_split hj
    have hc := h.turns_split hs o
    have ht := hm.count (h.owner_mem (List.mem_of_getElem? hj)) o
    have hj' : (before ++ j' :: after).countP (·.hasTurn o) =
        before.countP (·.hasTurn o) + (after.countP (·.hasTurn o) + j'.turns o) := by
      rw [List.countP_append, List.countP_cons]
      rfl
    simp only [Calls.replace, hset, hj']
    omega
  nodup := hm.nodup h.nodup

theorem Orderly.perform {c : Calls σ} (h : Orderly c) (a : Act σ) : Orderly (perform b c a) := by
  cases a with
  | call task =>
    refine ⟨fun o => ?_, h.nodup⟩
    have ht : (Job.start task).hasTurn o = false := by simp [Job.hasTurn, Job.start, Pass.kind?]
    simpa [Calls.perform, ht] using h.count o
  | change world => exact ⟨h.count, h.nodup⟩
  | step i =>
    simp only [Calls.perform]
    cases hj : c.jobs[i]? with
    | none => exact h
    | some j => exact h.replace hj (c.registrar.step_moves b j)
  | answer i =>
    simp only [Calls.perform]
    cases hj : c.jobs[i]? with
    | none => exact h
    | some j => exact h.replace hj (c.registrar.answer_moves b j)
  | drop i =>
    simp only [Calls.perform]
    cases hj : c.jobs[i]? with
    | none => exact h
    | some j =>
      obtain ⟨before, after, hs, _, he⟩ := exists_split hj
      refine ⟨fun o => ?_, ?_⟩
      · have hc := h.turns_split hs o
        have ht := Registrar.count_release (h.owner_mem (List.mem_of_getElem? hj)) o
        simp only [he, List.countP_append]
        omega
      · simp only [Registrar.release]
        split
        · exact h.nodup.erase _
        · exact h.nodup

/-! The kind that a job is about to register is not registered yet, so a subscription is made for
each kind that is registered, and only one. -/

def Fresh (c : Calls σ) : Prop :=
  ∀ j ∈ c.jobs, ∀ k, j.pass.kind? = some k → k ∉ c.registrar.set j.task.owner

/-- Only the job that has its turn can change the kinds of its owner kind. -/
theorem Fresh.replace {c : Calls σ} (h : Fresh c) (ho : Orderly c) {i : Nat} {j : Job}
    (hj : c.jobs[i]? = some j) {g : Registrar σ} {j' : Job}
    (hown : j'.task.owner = j.task.owner)
    (hnew : ∀ k, j'.pass.kind? = some k → k ∉ g.set j.task.owner)
    (hset : ∀ o, g.set o = c.registrar.set o ∨ o = j.task.owner ∧ j.pass.kind?.isSome) :
    Fresh (c.replace i (g, j')) := by
  obtain ⟨before, after, hs, hr, _⟩ := exists_split hj
  intro l hl k hk
  simp only [Calls.replace, hr, List.mem_append, List.mem_cons] at hl
  by_cases he : l = j'
  · rw [he, hown]
    exact hnew k (he ▸ hk)
  · have hm : l ∈ before ++ after := by
      rw [List.mem_append]
      exact hl.imp_right fun h => h.resolve_left he
    have hl : l ∈ c.jobs := by
      rw [hs]
      exact List.mem_append.2 ((List.mem_append.1 hm).imp_right (List.mem_cons_of_mem j))
    obtain hg | ⟨hg, hturn⟩ := hset l.task.owner
    -- The set of the owner kind can change only under the job whose turn it is, and that is `j`.
    · show k ∉ g.set l.task.owner
      rw [hg]
      exact h l hl k hk
    · exact absurd hg (ho.alone hs hturn hm (by rw [hk]; rfl))

theorem Fresh.perform {c : Calls σ} (h : Fresh c) (ho : Orderly c) (a : Act σ) :
    Fresh (perform b c a) := by
  cases a with
  | call task =>
    intro j hj k hk
    obtain hj | hj := List.mem_append.1 hj
    · exact h j hj k hk
    · rw [List.mem_singleton.1 hj] at hk
      simp [Job.start, Pass.kind?] at hk
  | change world => exact h
  | step i =>
    simp only [Calls.perform]
    cases hj : c.jobs[i]? with
    | none => exact h
    | some j =>
      refine h.replace ho hj (c.registrar.step_moves b j).owner ?_ ?_
      · exact fun k => Registrar.step_fresh b (h j (List.mem_of_getElem? hj))
      · exact fun o => .inl (c.registrar.set_step b j o)
  | answer i =>
    simp only [Calls.perform]
    cases hj : c.jobs[i]? with
    | none => exact h
    | some j =>
      refine h.replace ho hj (c.registrar.answer_moves b j).owner ?_ fun o => ?_
      · exact fun k => Registrar.answer_fresh b (h j (List.mem_of_getElem? hj))
      · obtain ⟨_, hs⟩ | ⟨k, hk, _, hs⟩ := answer_set_cases b c.registrar j
        · exact .inl (hs o)
        · by_cases he : o = j.task.owner
          · exact .inr ⟨he, by rw [hk]; rfl⟩
          · exact .inl ((hs o).trans (if_neg he))
  | drop i =>
    simp only [Calls.perform]
    cases hj : c.jobs[i]? with
    | none => exact h
    | some j =>
      intro l hl k hk
      have hset : (c.registrar.release j).set l.task.owner = c.registrar.set l.task.owner := by
        unfold Registrar.release
        split <;> rfl
      show k ∉ (c.registrar.release j).set l.task.owner
      rw [hset]
      exact h l (List.mem_of_mem_eraseIdx hl) k hk

theorem not_mem_of_called {c : Calls σ} (h : Fresh c) {a : Act σ} {o k : GroupVersionKind}
    (hm : .called o k ∈ marks b c a) : k ∉ c.registrar.set o := by
  cases a with
  | step i =>
    simp only [marks] at hm
    cases hj : c.jobs[i]? with
    | none => simp [hj] at hm
    | some j =>
      rw [hj] at hm
      cases hp : j.pass with
      | subscribe s rest =>
        simp only [Option.map_some, Option.getD_some, stepMarks, hp, List.mem_singleton,
          Mark.called.injEq] at hm
        obtain ⟨rfl, rfl⟩ := hm
        exact h j (List.mem_of_getElem? hj) s.kind (by rw [hp]; rfl)
      | _ => simp [stepMarks, hp] at hm
  | answer i =>
    simp only [marks] at hm
    cases hj : c.jobs[i]? with
    | none => simp [hj] at hm
    | some j =>
      obtain ⟨hn, _⟩ | ⟨l, _, hn, _⟩ := answer_set_cases b c.registrar j
      · simp [hj, hn] at hm
      · simp [hj, hn] at hm
  | _ => simp [marks] at hm

/-- A subscription was made for each kind that is registered, and no other. -/
def Counted (c : Calls σ) (log : List Mark) : Prop :=
  ∀ o k, log.count (.subscribed o k) = if k ∈ c.registrar.set o then 1 else 0

theorem Counted.perform {c : Calls σ} {log : List Mark} (h : Counted c log) (hf : Fresh c)
    (a : Act σ) : Counted (perform b c a) (log ++ marks b c a) := by
  intro o k
  rw [List.count_append, h o k]
  obtain ⟨hn, hs⟩ | ⟨j, hj, l, hl, hm, hs⟩ := set_cases b c a
  · rw [hs, List.count_eq_zero.2 (hn o k), Nat.add_zero]
  · rw [hm, hs]
    have hnew : l ∉ c.registrar.set j.task.owner := hf j hj l hl
    by_cases ho : o = j.task.owner
    · obtain rfl := ho
      by_cases hk : k = l
      · simp [hk, hnew, KindSet.mem_insert]
      · have hne : l ≠ k := fun he => hk he.symm
        simp [hk, hne, KindSet.mem_insert]
    · have hne : j.task.owner ≠ o := fun he => ho he.symm
      simp [ho, hne]

structure Regular (c : Calls σ) (log : List Mark) : Prop where
  orderly : Orderly c
  fresh : Fresh c
  counted : Counted c log

theorem Regular.perform {c : Calls σ} {log : List Mark} (h : Regular c log) (a : Act σ) :
    Regular (perform b c a) (log ++ marks b c a) :=
  ⟨h.orderly.perform b a, h.fresh.perform b h.orderly a, h.counted.perform b h.fresh a⟩

theorem regular_start (world : σ) : Regular (start world) [] where
  orderly := ⟨fun _ => rfl, List.nodup_nil⟩
  fresh j hj := by simp [start] at hj
  counted o k := by
    have hk : k ∉ (start world).registrar.set o := List.not_mem_nil
    rw [if_neg hk]
    rfl

theorem regular_run (world : σ) (acts : List (Act σ)) :
    Regular ((system b).run (start world) acts) ((system b).log (start world) acts) :=
  (system b).invariant (A := fun _ _ => True) (l := []) (fun _ _ a h _ => h.perform b a)
    (regular_start world) ((system b).throughout_of_forall (fun _ _ _ => trivial) _)

theorem mem_set_run {c : Calls σ} {o k : GroupVersionKind} (h : k ∈ c.registrar.set o)
    (acts : List (Act σ)) : k ∈ ((system b).run c acts).registrar.set o := by
  induction acts generalizing c with
  | nil => exact h
  | cons a acts ih => exact ih (mem_set_perform b h a)

/-- However calls go on side by side, are dropped and are answered, as many subscriptions were made
for a kind and an owner kind as the kind is registered: one or none. No subscription is called for
whose kind is registered, a kind stays registered, and nothing else is registered but by a
subscription that was made. -/
theorem subscribed_once (world : σ) (acts : List (Act σ)) :
    let c := (system b).run (start world) acts
    let log := (system b).log (start world) acts
    (∀ owner kind,
      log.count (.subscribed owner kind) = if kind ∈ c.registrar.set owner then 1 else 0) ∧
    (∀ a owner kind, .called owner kind ∈ marks b c a → kind ∉ c.registrar.set owner) ∧
    (∀ more owner kind, kind ∈ c.registrar.set owner →
      kind ∈ ((system b).run c more).registrar.set owner) ∧
    (∀ a owner, (∀ kind, .subscribed owner kind ∉ marks b c a) →
      (perform b c a).registrar.set owner = c.registrar.set owner) := by
  intro c log
  have hr : Regular c log := regular_run b world acts
  refine ⟨hr.counted, ?_, ?_, ?_⟩
  · exact fun a owner kind hm => not_mem_of_called b hr.fresh hm
  · exact fun more owner kind hk => mem_set_run b hk more
  · exact fun a owner hm => set_perform b hm

end Calls
end DependentWatch
