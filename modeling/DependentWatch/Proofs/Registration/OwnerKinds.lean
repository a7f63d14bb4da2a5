import DependentWatch.Proofs.Registration.Answers
import DependentWatch.Proofs.Registration.Calls
/-! Calls for several owner kinds side by side. Where each answer depends only on the kind that is
asked for, those for one owner kind are as if there were no others. -/
namespace DependentWatch

namespace Answers
variable (a : Answers)

/-- A job at its end asks for nothing more and leaves the kinds as they are. -/
theorem rest_of_finished {j : Job} (h : j.result?.isSome) :
    ∃ result, j.result? = some result ∧ ∀ set, a.rest set j = ⟨result, set, (), []⟩ := by
  cases hp : j.pass with
  | finished result =>
    refine ⟨result, by simp [Job.result?, hp], fun set => ?_⟩
    rw [rest, hp]
    rfl
  | _ => simp [Job.result?, hp] at h

theorem upshot_of_finished {js : List Job} (h : ∀ j ∈ js, j.result?.isSome) (set : KindSet) :
    a.upshot set js = ⟨js.map Job.result?, set, []⟩ := by
  induction js with
  | nil => rfl
  | cons j js ih =>
    obtain ⟨result, hr, ho⟩ := a.rest_of_finished (h j List.mem_cons_self)
    have := ih fun l hl => h l (List.mem_cons_of_mem j hl)
    simp [upshot, ho, this, hr, Outcome.calls]

/-- When a job behind finished ones goes on, the upshot is the same but for what it asked for. -/
theorem upshot_replace {before : List Job} (hb : ∀ l ∈ before, l.result?.isSome) {j j' : Job}
    {set set' : KindSet} {queries : List Query}
    (h : a.rest set j = (a.rest set' j').after queries) (after : List Job) :
    a.upshot set (before ++ j :: after) =
      (a.upshot set' (before ++ j' :: after)).after (queries.filterMap Query.subscription?) := by
  induction before with
  | nil =>
    simp only [List.nil_append, upshot, h, Outcome.calls_after, List.append_assoc]
    rfl
  | cons l before ih =>
    obtain ⟨result, _, ho⟩ := a.rest_of_finished (hb l List.mem_cons_self)
    have := ih fun x hx => hb x (List.mem_cons_of_mem l hx)
    simp [upshot, ho, this, Upshot.after, Outcome.calls]

end Answers

namespace Job

/-- The pass still waits for its turn. -/
def waits (j : Job) : Bool :=
  match j.pass with
  | .waiting => true
  | _ => false

/-- The subscription that the next step calls for. -/
def asks (j : Job) : List Subscription :=
  match j.pass with
  | .subscribe s _ => [s]
  | _ => []

theorem of_hasTurn {j : Job} {o : GroupVersionKind} (h : j.hasTurn o = true) :
    j.task.owner = o ∧ j.waits = false ∧ j.result? = none := by
  simp only [hasTurn, Bool.and_eq_true, decide_eq_true_eq] at h
  cases hp : j.pass <;> simp_all [Pass.kind?, waits, result?]

theorem asks_of_asked {j : Job} {k : GroupVersionKind} (h : j.task.asked? j.pass = some k) :
    j.asks = [] ∧ j.result? = none ∧ j.waits = false := by
  cases hp : j.pass with
  | askOwner r rest => simp [asks, result?, waits, hp]
  | askDependent owner r rest => simp [asks, result?, waits, hp]
  | _ => simp [hp, Registration.asked?] at h

end Job

namespace Registrar
variable {σ : Type} {b : Backend σ} {a : Answers} {P : σ → Prop}

@[simp] theorem world_moveTo (g : Registrar σ) (j : Job) (p : Pass) :
    (g.moveTo j p).1.world = g.world := by
  cases p <;> rfl

/-- A job goes on with the answers, calls for subscriptions, and touches nothing that belongs to
other owner kinds. -/
structure Proceeds (a : Answers) (P : σ → Prop) (g : Registrar σ) (j : Job)
    (calls : List Subscription) (next : Registrar σ × Job) : Prop where
  task : next.2.task = j.task
  active : j.result? = none
  free : j.waits → j.task.owner ∉ g.busy
  world : P next.1.world
  others (o : GroupVersionKind) : o ≠ j.task.owner → next.1.set o = g.set o
  rest : ∃ queries, queries.filterMap Query.subscription? = calls ∧
    a.rest (g.set j.task.owner) j = (a.rest (next.1.set j.task.owner) next.2).after queries
  left : next.2.left < j.left

theorem proceeds_moveTo {g g' : Registrar σ} {j : Job} {p : Pass} {calls : List Subscription}
    (queries : List Query) (hq : queries.filterMap Query.subscription? = calls)
    (active : j.result? = none) (free : j.waits → j.task.owner ∉ g.busy)
    (world : P g'.world) (others : ∀ o, o ≠ j.task.owner → g'.set o = g.set o)
    (hr : a.rest (g.set j.task.owner) j =
      (j.task.remaining a.backend () (g'.set j.task.owner) p).after queries)
    (hl : p.left j.task.manifest.resources.length < j.left) :
    Proceeds a P g j calls (g'.moveTo j p) where
  task := by rw [moveTo_snd]
  active := active
  free := free
  world := by rwa [world_moveTo]
  others o ho := by rw [set_moveTo, others o ho]
  rest := ⟨queries, hq, by rw [set_moveTo, moveTo_snd, hr]; rfl⟩
  left := by rwa [moveTo_snd]

/-- A step of a job that does not go on changes nothing. -/
theorem step_proceeds (hb : b.Gives a P) {g : Registrar σ} (hw : P g.world) (j : Job) :
    Proceeds a P g j j.asks (g.step b j) ∨
    g.step b j = (g, j) ∧ j.asks = [] ∧ (j.result?.isSome ∨ j.waits ∧ j.task.owner ∈ g.busy ∨
      ∃ s rest, j.pass = .subscribing s rest) := by
  cases hk : j.task.asked? j.pass with
  | some k =>
    obtain ⟨ha, hr, hn⟩ := Job.asks_of_asked hk
    obtain ⟨world, hs, hw⟩ := hb.scope hw k
    rw [step_asked hk, hs]
    refine .inl (proceeds_moveTo [.lookup k] ha.symm hr (by simp [hn]) hw ?_ ?_ ?_)
    · exact fun _ _ => rfl
    · exact j.task.remaining_onScope a.backend hk () _
    · exact j.task.left_onScope hk _ _
  | none =>
    cases hp : j.pass with
    | waiting =>
      by_cases hbusy : j.task.owner ∈ g.busy
      · refine .inr ⟨by simp [step, hp, hbusy], by simp [Job.asks, hp], .inr (.inl ⟨?_, hbusy⟩)⟩
        simp [Job.waits, hp]
      · have ha : j.asks = [] := by simp [Job.asks, hp]
        rw [step_waiting hp hbusy]
        refine .inl (proceeds_moveTo [] ha.symm ?_ (fun _ => hbusy) hw ?_ ?_ ?_)
        · simp [Job.result?, hp]
        · exact fun _ _ => rfl
        · rw [Answers.rest, hp]
          exact (j.task.remaining_seek a.backend () _ _).symm
        · have hl := j.task.left_seek j.task.manifest.resources.length (g.set j.task.owner)
            j.task.manifest.resources
          rw [Job.left, hp]
          exact Nat.lt_succ_of_le hl
    | subscribe s rest =>
      have ha : j.asks = [s] := by simp [Job.asks, hp]
      rw [step_subscribe hp]
      refine .inl (proceeds_moveTo [.subscribe s] ha.symm ?_ ?_ (hb.call hw s) ?_ ?_ ?_)
      · simp [Job.result?, hp]
      · simp [Job.waits, hp]
      · exact fun _ _ => rfl
      · rw [Answers.rest, hp]
        rfl
      · rw [Job.left, hp]
        exact Nat.lt_succ_self _
    | subscribing s rest =>
      exact .inr ⟨step_subscribing hp, by simp [Job.asks, hp], .inr (.inr ⟨s, rest, rfl⟩)⟩
    | finished result =>
      exact .inr ⟨step_finished hp, by simp [Job.asks, hp], .inl (by simp [Job.result?, hp])⟩
    | _ => simp [hp, Registration.asked?] at hk

theorem answer_proceeds (hb : b.Gives a P) {g : Registrar σ} (hw : P g.world) (j : Job) :
    j.waits = false ∧ Proceeds a P g j [] (g.answer b j) ∨
    g.answer b j = (g, j) ∧ ∀ s rest, j.pass ≠ .subscribing s rest := by
  cases hp : j.pass with
  | subscribing s rest =>
    obtain ⟨world, ha, hw⟩ := hb.answer hw s
    let next := j.task.onSubscribed (g.set j.task.owner) (a.subscription s.kind) (.subscribing s rest)
    have hs : g.answer b j = ({ g with world }.putSet j.task.owner next.2).moveTo j next.1 := by
      simp [answer, hp, ha, next]
    have hn : j.waits = false := by simp [Job.waits, hp]
    rw [hs]
    refine .inl ⟨hn, proceeds_moveTo [] rfl ?_ (by simp [hn]) hw ?_ ?_ ?_⟩
    · simp [Job.result?, hp]
    · intro o ho
      rw [set_putSet, if_neg ho]
      rfl
    · rw [set_putSet, if_pos rfl, Answers.rest, hp]
      exact j.task.remaining_onSubscribed a.backend () _ s rest
    · rw [Job.left, hp]
      simp only [next, Registration.onSubscribed]
      cases a.subscription s.kind with
      | error e => exact Nat.zero_lt_succ _
      | ok u => exact Nat.lt_succ_of_le (j.task.left_seek _ _ _)
  | _ => exact .inr ⟨by simp [answer, hp], by simp⟩

end Registrar

namespace Calls
variable {σ : Type} {b : Backend σ} {a : Answers} {P : σ → Prop}

/-- The registration that is called for. -/
def Act.task? : Act σ → Option Registration
  | .call task => some task
  | _ => none

/-- The steps of calls, with the subscriptions that they call for. -/
def asking (b : Backend σ) : System (Calls σ) (Act σ) (GroupVersionKind × Subscription) where
  step := perform b
  marks c
    | .step i => (c.jobs[i]?.map fun j => j.asks.map (j.task.owner, ·)).getD []
    | _ => []

def jobsFor (c : Calls σ) (o : GroupVersionKind) : List Job := c.jobs.filter (·.task.owner = o)

/-- The registrations for an owner kind, in the order in which they are called for. -/
def tasksFor (acts : List (Act σ)) (o : GroupVersionKind) : List Registration :=
  (acts.filterMap Act.task?).filter (·.owner = o)

def subscriptionsFor (log : List (GroupVersionKind × Subscription)) (o : GroupVersionKind) :
    List Subscription :=
  (log.filter (·.1 = o)).map (·.2)

/-- Calls for the same owner kind keep their order: one that waits takes a free turn only behind
calls that are at their ends. None is dropped, and nothing else changes the world. -/
def InOrder (c : Calls σ) : Act σ → Prop
  | .call _ | .answer _ => True
  | .step i => ∀ j ∈ c.jobs[i]?, j.waits → j.task.owner ∉ c.registrar.busy →
      ∀ l ∈ c.jobs.take i, l.task.owner = j.task.owner → l.result?.isSome
  | .drop _ | .change _ => False

instance (c : Calls σ) : (a : Act σ) → Decidable (InOrder c a)
  | .call _ | .answer _ => .isTrue trivial
  | .step i => inferInstanceAs (Decidable (∀ j ∈ c.jobs[i]?, j.waits →
      j.task.owner ∉ c.registrar.busy →
      ∀ l ∈ c.jobs.take i, l.task.owner = j.task.owner → l.result?.isSome))
  | .drop _ | .change _ => .isFalse id

/-- The calls for an owner kind that came before one that goes on are at their ends. -/
def InTurn (c : Calls σ) : Prop :=
  c.jobs.Pairwise fun l j => l.task.owner = j.task.owner → j.waits = false → l.result?.isSome

theorem replace_self {c : Calls σ} {i : Nat} {j : Job} (h : c.jobs[i]? = some j) :
    c.replace i (c.registrar, j) = c := by
  obtain ⟨hj, hset⟩ := take_append_drop_of_getElem? h
  show Calls.mk c.registrar (c.jobs.set i j) = c
  rw [hset, ← hj]

/-- A job that goes on, behind jobs for the same owner kind that are at their ends. -/
structure Goes (a : Answers) (P : σ → Prop) (c : Calls σ) (i : Nat) (j : Job)
    (calls : List Subscription) (next : Registrar σ × Job) : Prop where
  get : c.jobs[i]? = some j
  ended : ∀ l ∈ c.jobs.take i, l.task.owner = j.task.owner → l.result?.isSome
  proceeds : Registrar.Proceeds a P c.registrar j calls next

/-- What holds of calls that go on in order. -/
structure Settled (P : σ → Prop) (c : Calls σ) : Prop where
  world : P c.registrar.world
  inTurn : InTurn c
  orderly : Orderly c

theorem InTurn.ended {c : Calls σ} (h : InTurn c) {i : Nat} {j : Job} (hj : c.jobs[i]? = some j)
    (hn : j.waits = false) :
    ∀ l ∈ c.jobs.take i, l.task.owner = j.task.owner → l.result?.isSome := by
  intro l hl ho
  have h : c.jobs.Pairwise _ := h
  rw [(take_append_drop_of_getElem? hj).1] at h
  exact (List.pairwise_append.1 h).2.2 l hl j List.mem_cons_self ho hn

/-- What an act in order can be: a new call, nothing, or a job that goes on. -/
theorem step_cases (hb : b.Gives a P) {c : Calls σ} (h : Settled P c) {x : Act σ}
    (hx : InOrder c x) :
    (∃ task, x = .call task) ∨
    x.task? = none ∧ ((asking b).step c x = c ∧ (asking b).marks c x = [] ∨
      ∃ i j calls next, Goes a P c i j calls next ∧ (asking b).step c x = c.replace i next ∧
        (asking b).marks c x = calls.map (j.task.owner, ·)) := by
  cases x with
  | call task => exact .inl ⟨task, rfl⟩
  | drop i => exact hx.elim
  | change world => exact hx.elim
  | step i =>
    refine .inr ⟨rfl, ?_⟩
    cases hj : c.jobs[i]? with
    | none => exact .inl (by simp [asking, perform, hj])
    | some j =>
      obtain hp | ⟨hs, ha, _⟩ := Registrar.step_proceeds hb h.world j
      · refine .inr ⟨i, j, _, _, ⟨hj, ?_, hp⟩, by simp [asking, perform, hj], by simp [asking, hj]⟩
        cases hn : j.waits with
        | false => exact h.inTurn.ended hj hn
        | true => exact hx j hj hn (hp.free hn)
      · exact .inl (by simp [asking, perform, hj, hs, ha, replace_self hj])
  | answer i =>
    refine .inr ⟨rfl, ?_⟩
    cases hj : c.jobs[i]? with
    | none => exact .inl (by simp [asking, perform, hj])
    | some j =>
      obtain ⟨hn, hp⟩ | ⟨hs, _⟩ := Registrar.answer_proceeds hb h.world j
      · exact .inr ⟨i, j, [], _, ⟨hj, h.inTurn.ended hj hn, hp⟩, by simp [asking, perform, hj], rfl⟩
      · exact .inl (by simp [asking, perform, hj, hs, replace_self hj])

theorem InTurn.call {c : Calls σ} (h : InTurn c) (task : Registration) :
    InTurn { c with jobs := c.jobs ++ [.start task] } := by
  refine List.pairwise_append.2 ⟨h, List.pairwise_singleton _ _, fun l _ j hj _ hn => ?_⟩
  rw [List.mem_singleton.1 hj] at hn
  exact absurd hn (by simp [Job.waits, Job.start])

theorem InTurn.goes {c : Calls σ} (h : InTurn c) {i : Nat} {j : Job} {calls : List Subscription}
    {next : Registrar σ × Job} (hg : Goes a P c i j calls next) : InTurn (c.replace i next) := by
  obtain ⟨hj, hset⟩ := take_append_drop_of_getElem? hg.get
  have h : c.jobs.Pairwise _ := h
  show (c.jobs.set i next.2).Pairwise _
  rw [hj] at h
  obtain ⟨hbefore, hafter, hacross⟩ := List.pairwise_append.1 h
  obtain ⟨hfirst, hafter⟩ := List.pairwise_cons.1 hafter
  rw [hset]
  refine List.pairwise_append.2 ⟨hbefore, List.pairwise_cons.2 ⟨?_, hafter⟩, ?_⟩
  -- No later call has started, for the job that goes on is not at its end.
  · intro l hl ho hn
    rw [hg.proceeds.task] at ho
    have := hfirst l hl ho hn
    simp [hg.proceeds.active] at this
  · intro l hl x hx ho hn
    obtain rfl | hx := List.mem_cons.1 hx
    · exact hg.ended l hl (hg.proceeds.task ▸ ho)
    · exact hacross l hl x (List.mem_cons_of_mem j hx) ho hn

theorem Settled.step (hb : b.Gives a P) {c : Calls σ} (h : Settled P c) {x : Act σ}
    (hx : InOrder c x) : Settled P ((asking b).step c x) := by
  have ho : Orderly ((asking b).step c x) := h.orderly.perform b x
  obtain ⟨task, rfl⟩ | ⟨_, ⟨hs, _⟩ | ⟨i, j, calls, next, hg, hs, _⟩⟩ := step_cases hb h hx
  · exact ⟨h.world, h.inTurn.call task, ho⟩
  · rwa [hs]
  · refine ⟨?_, ?_, ho⟩
    · rw [hs]
      exact hg.proceeds.world
    · rw [hs]
      exact h.inTurn.goes hg

theorem Settled.run (hb : b.Gives a P) {c : Calls σ} (h : Settled P c) {acts : List (Act σ)}
    (hx : (asking b).Throughout InOrder c acts) : Settled P ((asking b).run c acts) :=
  (asking b).invariant (I := fun c _ => Settled P c) (l := []) (fun _ _ _ h hx => h.step hb hx) h hx

/-! What the calls for one owner kind come to does not change as they go on. -/

theorem tasksFor_cons (x : Act σ) (acts : List (Act σ)) (o : GroupVersionKind) :
    tasksFor (x :: acts) o = tasksFor [x] o ++ tasksFor acts o := by
  have hx : x :: acts = [x] ++ acts := rfl
  rw [hx, tasksFor, List.filterMap_append, List.filter_append]
  rfl

theorem tasksFor_eq_nil {x : Act σ} (h : x.task? = none) (o : GroupVersionKind) :
    tasksFor [x] o = [] := by
  simp [tasksFor, h]

theorem subscriptionsFor_append (log marks : List (GroupVersionKind × Subscription))
    (o : GroupVersionKind) :
    subscriptionsFor (log ++ marks) o = subscriptionsFor log o ++ subscriptionsFor marks o := by
  simp [subscriptionsFor]

theorem subscriptionsFor_map (owner : GroupVersionKind) (calls : List Subscription)
    (o : GroupVersionKind) :
    subscriptionsFor (calls.map (owner, ·)) o = if owner = o then calls else [] := by
  by_cases ho : owner = o <;> simp [subscriptionsFor, List.filter_map, Function.comp_def, ho]

theorem jobsFor_call (c : Calls σ) (task : Registration) (o : GroupVersionKind) :
    jobsFor { c with jobs := c.jobs ++ [.start task] } o =
      c.jobsFor o ++ (tasksFor [(.call task : Act σ)] o).map .start := by
  by_cases ho : task.owner = o <;> simp [jobsFor, tasksFor, Act.task?, Job.start, ho]

theorem Goes.upshot {c : Calls σ} {i : Nat} {j : Job} {calls : List Subscription}
    {next : Registrar σ × Job} (hg : Goes a P c i j calls next) (o : GroupVersionKind)
    (later : List Job) :
    a.upshot (c.registrar.set o) (c.jobsFor o ++ later) =
      (a.upshot ((c.replace i next).registrar.set o) ((c.replace i next).jobsFor o ++ later)).after
        (subscriptionsFor (calls.map (j.task.owner, ·)) o) := by
  obtain ⟨hj, hset⟩ := take_append_drop_of_getElem? hg.get
  have hn : (c.replace i next).jobsFor o =
      (c.jobs.take i ++ next.2 :: c.jobs.drop (i + 1)).filter (·.task.owner = o) := by
    rw [← hset]
    rfl
  have hc : c.jobsFor o = (c.jobs.take i ++ j :: c.jobs.drop (i + 1)).filter (·.task.owner = o) :=
    congrArg (List.filter _) hj
  rw [subscriptionsFor_map, hc, hn]
  by_cases ho : j.task.owner = o
  · obtain ⟨queries, hq, hr⟩ := hg.proceeds.rest
    have hb : ∀ l ∈ (c.jobs.take i).filter (·.task.owner = o), l.result?.isSome := by
      intro l hl
      rw [List.mem_filter] at hl
      exact hg.ended l hl.1 (ho ▸ of_decide_eq_true hl.2)
    rw [ho] at hr
    simp only [List.filter_append, List.filter_cons, hg.proceeds.task, ho, decide_true, if_true,
      List.append_assoc, List.cons_append, ← hq]
    exact a.upshot_replace hb hr _
  · have hs : (c.replace i next).registrar.set o = c.registrar.set o :=
      hg.proceeds.others o (Ne.symm ho)
    simp [hg.proceeds.task, ho, hs, Upshot.after]

theorem step_upshot (hb : b.Gives a P) {c : Calls σ} (h : Settled P c) {x : Act σ}
    (hx : InOrder c x) (o : GroupVersionKind) (later : List Job) :
    a.upshot (c.registrar.set o) (c.jobsFor o ++ ((tasksFor [x] o).map .start ++ later)) =
      (a.upshot (((asking b).step c x).registrar.set o)
        (((asking b).step c x).jobsFor o ++ later)).after
          (subscriptionsFor ((asking b).marks c x) o) := by
  obtain ⟨task, rfl⟩ | ⟨ht, ⟨hs, hm⟩ | ⟨i, j, calls, next, hg, hs, hm⟩⟩ := step_cases hb h hx
  · have hc : jobsFor ((asking b).step c (.call task)) o =
        c.jobsFor o ++ (tasksFor [.call task] o).map .start := jobsFor_call c task o
    rw [hc, List.append_assoc]
    rfl
  · rw [hs, hm, tasksFor_eq_nil ht]
    rfl
  · rw [hs, hm, tasksFor_eq_nil ht]
    exact hg.upshot o later

theorem run_upshot (hb : b.Gives a P) {c : Calls σ} (h : Settled P c) {acts : List (Act σ)}
    (hx : (asking b).Throughout InOrder c acts) (o : GroupVersionKind) :
    a.upshot (c.registrar.set o) (c.jobsFor o ++ (tasksFor acts o).map .start) =
      (a.upshot (((asking b).run c acts).registrar.set o)
        (((asking b).run c acts).jobsFor o)).after
          (subscriptionsFor ((asking b).log c acts) o) := by
  induction acts generalizing c with
  | nil => simp [tasksFor, System.run, System.log, subscriptionsFor, Upshot.after]
  | cons x acts ih =>
    have hlog : (asking b).log c (x :: acts) =
        (asking b).marks c x ++ (asking b).log ((asking b).step c x) acts := rfl
    rw [tasksFor_cons, List.map_append, step_upshot hb h hx.1, ih (h.step hb hx.1) hx.2, hlog,
      subscriptionsFor_append]
    simp [Upshot.after, System.run]

/-- The jobs are the registrations that were called for, in their order. -/
theorem run_tasks {c : Calls σ} {acts : List (Act σ)} (hb : b.Gives a P) (h : Settled P c)
    (hx : (asking b).Throughout InOrder c acts) :
    ((asking b).run c acts).jobs.map (·.task) =
      c.jobs.map (·.task) ++ acts.filterMap Act.task? := by
  induction acts generalizing c with
  | nil => simp [System.run]
  | cons x acts ih =>
    have hrest := ih (h.step hb hx.1) hx.2
    have hrun : (asking b).run c (x :: acts) = (asking b).run ((asking b).step c x) acts := rfl
    rw [hrun, hrest]
    obtain ⟨task, rfl⟩ | ⟨ht, ⟨hs, _⟩ | ⟨i, j, calls, next, hg, hs, _⟩⟩ := step_cases hb h hx.1
    · simp [asking, perform, Act.task?, Job.start]
    · rw [hs, List.filterMap_cons_none ht]
    · obtain ⟨hj, hset⟩ := take_append_drop_of_getElem? hg.get
      have hjobs : (c.replace i next).jobs.map (·.task) = c.jobs.map (·.task) := by
        show (c.jobs.set i next.2).map (·.task) = _
        rw [hset, List.map_append, List.map_cons, hg.proceeds.task, ← List.map_cons,
          ← List.map_append, ← hj]
      rw [hs, List.filterMap_cons_none ht, hjobs]

/-! As long as a call is not at its end, one can go on in order. -/

def left (c : Calls σ) : Nat := c.jobs.foldr (·.left + ·) 0

theorem foldr_left_lt {m n : Nat} (h : m < n) (jobs : List Job) :
    jobs.foldr (·.left + ·) m < jobs.foldr (·.left + ·) n := by
  induction jobs with
  | nil => exact h
  | cons j jobs ih => exact Nat.add_lt_add_left ih j.left

theorem Goes.left_lt {c : Calls σ} {i : Nat} {j : Job} {calls : List Subscription}
    {next : Registrar σ × Job} (hg : Goes a P c i j calls next) :
    (c.replace i next).left < c.left := by
  obtain ⟨hj, hset⟩ := take_append_drop_of_getElem? hg.get
  have hl := hg.proceeds.left
  show (c.jobs.set i next.2).foldr (·.left + ·) 0 < c.jobs.foldr (·.left + ·) 0
  have hc : c.jobs.foldr (·.left + ·) 0 =
      (c.jobs.take i ++ j :: c.jobs.drop (i + 1)).foldr (·.left + ·) 0 :=
    congrArg (List.foldr _ _) hj
  rw [hset, hc, List.foldr_append, List.foldr_append, List.foldr_cons, List.foldr_cons]
  exact foldr_left_lt (Nat.add_lt_add_right hl _) _

/-- The first call that is not at its end can go on: nobody else has the turn for its owner kind. -/
theorem exists_act (hb : b.Gives a P) {c : Calls σ} (h : Settled P c)
    (hn : ∃ j ∈ c.jobs, j.result? = none) :
    ∃ x, InOrder c x ∧ x.task? = none ∧ ((asking b).step c x).left < c.left := by
  have hfind : (c.jobs.find? (·.result?.isNone)).isSome := by
    obtain ⟨j, hj, hr⟩ := hn
    exact List.find?_isSome.2 ⟨j, hj, by simp [hr]⟩
  obtain ⟨j, hfind⟩ := Option.isSome_iff_exists.1 hfind
  obtain ⟨hr, before, after, hs, hbefore⟩ := List.find?_eq_some_iff_append.1 hfind
  have hget : c.jobs[before.length]? = some j := by simp [hs]
  have ended : ∀ l ∈ c.jobs.take before.length, l.task.owner = j.task.owner → l.result?.isSome := by
    intro l hl _
    rw [hs, List.take_left] at hl
    simpa using hbefore l hl
  obtain hp | ⟨_, _, hf | ⟨hw, hbusy⟩ | ⟨s, rest, hp⟩⟩ := Registrar.step_proceeds hb h.world j
  · refine ⟨.step before.length, ?_, rfl, ?_⟩
    · intro l hl _ _ x hx ho
      obtain rfl : j = l := Option.some.inj (hget.symm.trans hl)
      exact ended x hx ho
    · simpa [asking, perform, hget] using Goes.left_lt ⟨hget, ended, hp⟩
  · simp_all
  -- Whoever has the turn is neither in front of the job nor behind it.
  · have hcount : 0 < c.jobs.countP (·.hasTurn j.task.owner) := by
      rw [h.orderly.count]
      exact List.count_pos_iff.2 hbusy
    obtain ⟨l, hl, ht⟩ := List.countP_pos_iff.1 hcount
    obtain ⟨ho, hlw, hlr⟩ := Job.of_hasTurn ht
    have hturn : c.jobs.Pairwise _ := h.inTurn
    rw [hs] at hturn
    rw [hs, List.mem_append, List.mem_cons] at hl
    obtain hl | rfl | hl := hl
    · simpa [hlr] using hbefore l hl
    · simp [hw] at hlw
    · have := (List.pairwise_cons.1 (List.pairwise_append.1 hturn).2.1).1 l hl ho.symm hlw
      simp_all
  · refine ⟨.answer before.length, trivial, rfl, ?_⟩
    obtain ⟨_, ha⟩ | ⟨_, hn⟩ := Registrar.answer_proceeds hb h.world j
    · simpa [asking, perform, hget] using Goes.left_lt ⟨hget, ended, ha⟩
    · exact absurd hp (hn s rest)

theorem exists_completion (hb : b.Gives a P) {c : Calls σ} (h : Settled P c) :
    ∃ more, (asking b).Throughout InOrder c more ∧ (∀ x ∈ more, x.task? = none) ∧
      ∀ j ∈ ((asking b).run c more).jobs, j.result?.isSome := by
  induction hl : c.left using Nat.strongRecOn generalizing c with
  | ind n ih =>
    by_cases hn : ∃ j ∈ c.jobs, j.result? = none
    · obtain ⟨x, hx, ht, hlt⟩ := exists_act hb h hn
      obtain ⟨more, hm, hts, hend⟩ := ih _ (hl ▸ hlt) (h.step hb hx) rfl
      exact ⟨x :: more, ⟨hx, hm⟩, List.forall_mem_cons.2 ⟨ht, hts⟩, hend⟩
    · refine ⟨[], trivial, by simp, fun j hj => ?_⟩
      exact Option.isSome_iff_ne_none.2 fun hr => hn ⟨j, hj, hr⟩

theorem settled_start {g : Registrar σ} (free : g.busy = []) (world : P g.world) :
    Settled P ⟨g, []⟩ where
  world := world
  inTurn := List.Pairwise.nil
  orderly := ⟨fun o => by simp [free], by simp [free]⟩

/-- Of what is done for one owner kind after the other, that which is done for one of them. -/
theorem filter_flatMap_owner {lists : GroupVersionKind → List Registration}
    (own : ∀ o, ∀ t ∈ lists o, t.owner = o) {owners : List GroupVersionKind}
    (hn : owners.Nodup) (o : GroupVersionKind) :
    (owners.flatMap lists).filter (·.owner = o) = if o ∈ owners then lists o else [] := by
  induction owners with
  | nil => rfl
  | cons x owners ih =>
    obtain ⟨hx, hn⟩ := List.nodup_cons.1 hn
    rw [List.flatMap_cons, List.filter_append, ih hn]
    by_cases ho : x = o
    · subst ho
      have hall : (lists x).filter (·.owner = x) = lists x :=
        List.filter_eq_self.2 fun t ht => decide_eq_true (own x t ht)
      simp [hall, hx]
    · have hnone : (lists x).filter (·.owner = o) = [] := by
        refine List.filter_eq_nil_iff.2 fun t ht => ?_
        simp [own x t ht, ho]
      simp [hnone, Ne.symm ho]

/-- Calls for several owner kinds go on side by side, and the answers depend only on the kinds that
are asked for. The calls can always come to their ends. Then each of them has the result, and each
owner kind has the registered kinds and the subscriptions that were called for, that there are when
one owner kind comes after the other, in whatever order. -/
theorem owner_kinds_keep_apart (hb : b.Gives a P) (atOnce : Bool) (g : Registrar σ)
    (free : g.busy = []) (world : P g.world) (acts : List (Act σ))
    (inOrder : (asking b).Throughout InOrder ⟨g, []⟩ acts) :
    let after := (asking b).run ⟨g, []⟩ acts
    (∃ more, (asking b).Throughout InOrder after more ∧ (∀ x ∈ more, x.task? = none) ∧
      ∀ j ∈ ((asking b).run after more).jobs, j.result?.isSome) ∧
    ((∀ j ∈ after.jobs, j.result?.isSome) →
      ∀ owners : List GroupVersionKind, owners.Nodup →
        (∀ task ∈ acts.filterMap Act.task?, task.owner ∈ owners) →
        let inTurn := owners.flatMap (tasksFor acts)
        let reports (o : GroupVersionKind) :=
          ((Registrar.oneByOne b atOnce).log g inTurn).filter (·.owner = o)
        ∀ o, (after.jobsFor o).map (·.task) = tasksFor acts o ∧
          (after.jobsFor o).map Job.result? = (reports o).map (·.result) ∧
          after.registrar.set o = ((Registrar.oneByOne b atOnce).run g inTurn).set o ∧
          subscriptionsFor ((asking b).log ⟨g, []⟩ acts) o = (reports o).flatMap (·.calls)) := by
  intro after
  have hs : Settled P ⟨g, []⟩ := settled_start free world
  refine ⟨exists_completion hb (hs.run hb inOrder), fun hend owners hn hall => ?_⟩
  intro inTurn reports o
  have htasks : after.jobs.map (·.task) = acts.filterMap Act.task? := run_tasks hb hs inOrder
  have own : ∀ o, ∀ t ∈ tasksFor acts o, t.owner = o := by
    intro o t ht
    exact of_decide_eq_true (List.mem_filter.1 ht).2
  have hlist : inTurn.filter (·.owner = o) = tasksFor acts o := by
    rw [filter_flatMap_owner own hn]
    by_cases ho : o ∈ owners
    · rw [if_pos ho]
    · rw [if_neg ho, eq_comm]
      refine List.filter_eq_nil_iff.2 fun t ht h => ho ?_
      exact of_decide_eq_true h ▸ hall t ht
  have hended : ∀ j ∈ after.jobsFor o, j.result?.isSome :=
    fun j hj => hend j (List.mem_filter.1 hj).1
  have hside := run_upshot hb hs inOrder o
  have hturn := Registrar.oneByOne_upshot hb atOnce free world inTurn o
  rw [a.upshot_of_finished hended] at hside
  rw [hlist] at hturn
  have hsame := hside.symm.trans hturn
  simp only [Upshot.after, List.append_nil, Upshot.mk.injEq] at hsame
  refine ⟨?_, hsame⟩
  rw [tasksFor, ← htasks, List.filter_map]
  rfl

/-- A registration of one config map. -/
def oneConfigMap (owner : GroupVersionKind) : Registration :=
  ⟨owner, [.dependentChanges], ⟨[⟨0, ⟨"", "v1", "ConfigMap"⟩, some "app", none, .empty⟩], none⟩⟩

/-- Two owner kinds name the same kind at the same time. -/
theorem owner_kinds_keep_apart_config_maps :
    let deployment : GroupVersionKind := ⟨"apps", "v1", "Deployment"⟩
    let job : GroupVersionKind := ⟨"batch", "v1", "Job"⟩
    let g : Registrar (ScopeTable × Recorder) := .start (.builtins, .empty)
    let acts : List (Act (ScopeTable × Recorder)) :=
      [.call (oneConfigMap deployment), .call (oneConfigMap job), .step 0, .step 1, .step 1,
        .step 0, .step 0, .step 1, .step 1, .step 0, .answer 0, .answer 1]
    let after := (asking Backend.recording).run ⟨g, []⟩ acts
    (g.busy = [] ∧ (asking Backend.recording).Throughout InOrder ⟨g, []⟩ acts ∧
      (∀ j ∈ after.jobs, j.result?.isSome) ∧ [job, deployment].Nodup ∧
      ∀ task ∈ acts.filterMap Act.task?, task.owner ∈ [job, deployment]) ∧
    let inTurn := [job, deployment].flatMap (tasksFor acts)
    let reports := (Registrar.oneByOne Backend.recording false).log g inTurn
    subscriptionsFor ((asking Backend.recording).log ⟨g, []⟩ acts) deployment =
      (reports.filter (·.owner = deployment)).flatMap (·.calls) ∧
    subscriptionsFor ((asking Backend.recording).log ⟨g, []⟩ acts) deployment =
      [⟨⟨"", "v1", "ConfigMap"⟩, .ownerReference "apps" "Deployment" .namespaced,
        [.dependentChanges]⟩] := by
  intro deployment job g acts after
  have inOrder : (asking Backend.recording).Throughout InOrder ⟨g, []⟩ acts := by decide +kernel
  have hend : ∀ j ∈ after.jobs, j.result?.isSome := by decide +kernel
  have hn : [job, deployment].Nodup := by decide
  have hall : ∀ task ∈ acts.filterMap Act.task?, task.owner ∈ [job, deployment] := by
    decide +kernel
  have h := owner_kinds_keep_apart (Backend.recording_gives .builtins .empty) false g rfl
    ⟨rfl, rfl⟩ acts inOrder
  exact ⟨⟨rfl, inOrder, hend, hn, hall⟩, (h.2 hend _ hn hall deployment).2.2.2, by decide +kernel⟩

end Calls
end DependentWatch
