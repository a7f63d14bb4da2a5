import DependentWatch.Proofs.Registration.Steps
import DependentWatch.Proofs.Routing.OwnerTexts
import DependentWatch.Registration.Recorder
/-! What a registration comes to, read off the resources of its manifest, and that a pass comes to it
in its steps. -/
namespace DependentWatch

/-- What a pass asks for. -/
inductive Query where
  | lookup (kind : GroupVersionKind)
  | subscribe (s : Subscription)
deriving DecidableEq

structure Outcome (σ : Type) where
  result : Except WatchError Unit
  set : KindSet
  world : σ
  queries : List Query

/-- The outcome when these queries came before. -/
def Outcome.after {σ : Type} (queries : List Query) (o : Outcome σ) : Outcome σ :=
  { o with queries := queries ++ o.queries }

/-- The backend that keeps a list of the queries. -/
def Backend.logged {σ : Type} (b : Backend σ) : Backend (σ × List Query) where
  scope w k := ((b.scope w.1 k).1, (b.scope w.1 k).2, w.2 ++ [.lookup k])
  call w s := (b.call w.1 s, w.2 ++ [.subscribe s])
  answer w s := ((b.answer w.1 s).1, (b.answer w.1 s).2, w.2)

namespace Registration
variable {σ : Type} (b : Backend σ) (g : Registration)

/-- A resource whose kind is registered asks for nothing. For each other one the scope of the owner
and then that of the resource is looked up, and its kind is subscribed to. The first error is the
result; the error of the manifest comes after all resources. -/
def outcome (world : σ) (set : KindSet) : List Resource → Outcome σ
  | [] =>
    match g.manifest.error with
    | none => ⟨.ok (), set, world, []⟩
    | some e => ⟨.error e, set, world, []⟩
  | r :: rest =>
    if r.gvk ∈ set then outcome world set rest
    else
      match b.scope world g.owner with
      | (.error e, world) => ⟨.error e, set, world, [.lookup g.owner]⟩
      | (.ok owner, world) =>
        match b.scope world r.gvk with
        | (.error e, world) => ⟨.error e, set, world, [.lookup g.owner, .lookup r.gvk]⟩
        | (.ok dependent, world) =>
          let strategy := Strategy.select owner dependent r.retained
          let s : Subscription := ⟨r.gvk, .forOwner strategy g.owner owner, g.filters⟩
          let queries := [.lookup g.owner, .lookup r.gvk, .subscribe s]
          match b.answer (b.call world s) s with
          | (.error e, world) => ⟨.error e, set, world, queries⟩
          | (.ok (), world) => (outcome world (set.insert r.gvk) rest).after queries

/-- The events of a dependent are led back by its annotations where it is to outlive its owner, or
where it is cluster-wide and its owner is not. -/
theorem handler_eq_annotations_iff {owner dependent : Scope} {r : Resource} :
    (g.subscription owner dependent r).handler = .annotations g.owner.typeText ↔
      Annotations.Kept r.annotations ∨ owner = .namespaced ∧ dependent = .cluster := by
  have hkept : r.retained = true ↔ Annotations.Kept r.annotations := Annotations.retained_iff
  rw [← hkept]
  unfold subscription Strategy.select Strategy.referable Handler.forOwner
  cases r.retained <;> cases owner <;> cases dependent <;> simp

/-! The outcome from each stage of a pass on. -/

def fromAnswer (world : σ) (set : KindSet) (s : Subscription) (rest : List Resource) : Outcome σ :=
  match b.answer world s with
  | (.error e, world) => ⟨.error e, set, world, []⟩
  | (.ok (), world) => g.outcome b world (set.insert s.kind) rest

def fromCall (world : σ) (set : KindSet) (s : Subscription) (rest : List Resource) : Outcome σ :=
  (g.fromAnswer b (b.call world s) set s rest).after [.subscribe s]

def fromDependent (world : σ) (set : KindSet) (owner : Scope) (r : Resource)
    (rest : List Resource) : Outcome σ :=
  match b.scope world r.gvk with
  | (.error e, world) => ⟨.error e, set, world, [.lookup r.gvk]⟩
  | (.ok dependent, world) =>
    (g.fromCall b world set (g.subscription owner dependent r) rest).after [.lookup r.gvk]

def fromOwner (world : σ) (set : KindSet) (r : Resource) (rest : List Resource) : Outcome σ :=
  match b.scope world g.owner with
  | (.error e, world) => ⟨.error e, set, world, [.lookup g.owner]⟩
  | (.ok owner, world) => (g.fromDependent b world set owner r rest).after [.lookup g.owner]

/-- What a pass comes to that stands at this stage. -/
def remaining (world : σ) (set : KindSet) : Pass → Outcome σ
  | .waiting => g.outcome b world set g.manifest.resources
  | .askOwner r rest => g.fromOwner b world set r rest
  | .askDependent owner r rest => g.fromDependent b world set owner r rest
  | .subscribe s rest => g.fromCall b world set s rest
  | .subscribing s rest => g.fromAnswer b world set s rest
  | .finished result => ⟨result, set, world, []⟩

theorem after_after (queries later : List Query) (o : Outcome σ) :
    (o.after later).after queries = o.after (queries ++ later) := by
  simp [Outcome.after]

theorem outcome_cons {set : KindSet} {r : Resource} (h : r.gvk ∉ set) (world : σ)
    (rest : List Resource) :
    g.outcome b world set (r :: rest) = g.fromOwner b world set r rest := by
  rw [outcome, if_neg h]
  unfold fromOwner fromDependent fromCall fromAnswer subscription
  cases b.scope world g.owner with
  | mk answer world =>
    cases answer with
    | error e => rfl
    | ok owner =>
      simp only
      cases b.scope world r.gvk with
      | mk answer world =>
        cases answer with
        | error e => rfl
        | ok dependent =>
          simp only
          split
          · simp [Outcome.after]
          · simp [Outcome.after]

theorem remaining_seek (world : σ) (set : KindSet) (rs : List Resource) :
    g.remaining b world set (g.seek set rs) = g.outcome b world set rs := by
  induction rs with
  | nil =>
    unfold seek outcome
    cases g.manifest.error <;> rfl
  | cons r rest ih =>
    unfold seek
    split
    · next h => rw [ih, outcome, if_pos h]
    · next h => exact (g.outcome_cons b h world rest).symm

theorem remaining_onScope {p : Pass} {k : GroupVersionKind} (h : g.asked? p = some k) (world : σ)
    (set : KindSet) :
    g.remaining b world set p =
      (g.remaining b (b.scope world k).2 set (g.onScope (b.scope world k).1 p)).after
        [.lookup k] := by
  cases p with
  | askOwner r rest =>
    obtain rfl : g.owner = k := by simpa [asked?] using h
    simp only [remaining, fromOwner, onScope]
    cases b.scope world g.owner with
    | mk answer world => cases answer <;> rfl
  | askDependent owner r rest =>
    obtain rfl : r.gvk = k := by simpa [asked?] using h
    simp only [remaining, fromDependent, onScope]
    cases b.scope world r.gvk with
    | mk answer world => cases answer <;> rfl
  | _ => simp [asked?] at h

theorem remaining_onSubscribed (world : σ) (set : KindSet) (s : Subscription)
    (rest : List Resource) :
    g.remaining b world set (.subscribing s rest) =
      g.remaining b (b.answer world s).2
        (g.onSubscribed set (b.answer world s).1 (.subscribing s rest)).2
        (g.onSubscribed set (b.answer world s).1 (.subscribing s rest)).1 := by
  simp only [remaining, fromAnswer, onSubscribed]
  cases b.answer world s with
  | mk answer world =>
    cases answer with
    | error e => rfl
    | ok u => exact (g.remaining_seek b world _ rest).symm

end Registration

/-- How many steps and answers there are until the end, at most. A pass that waits has so many
resources before it. -/
def Pass.left (resources : Nat) : Pass → Nat
  | .waiting => 4 * resources + 1
  | .askOwner _ rest => 4 * rest.length + 4
  | .askDependent _ _ rest => 4 * rest.length + 3
  | .subscribe _ rest => 4 * rest.length + 2
  | .subscribing _ rest => 4 * rest.length + 1
  | .finished _ => 0

def Job.left (j : Job) : Nat := j.pass.left j.task.manifest.resources.length

namespace Registration
variable (g : Registration)

theorem left_seek (n : Nat) (set : KindSet) (rs : List Resource) :
    (g.seek set rs).left n ≤ 4 * rs.length := by
  induction rs with
  | nil => simp [seek, Pass.left]
  | cons r rest ih =>
    unfold seek
    rw [List.length_cons]
    split
    · omega
    · simp only [Pass.left]
      omega

theorem left_onScope {p : Pass} {k : GroupVersionKind} (h : g.asked? p = some k) (n : Nat)
    (answer : Except WatchError Scope) : (g.onScope answer p).left n < p.left n := by
  cases p with
  | askOwner r rest => cases answer <;> simp [onScope, Pass.left]
  | askDependent owner r rest => cases answer <;> simp [onScope, Pass.left]
  | _ => simp [asked?] at h

end Registration

namespace Registrar
variable {σ : Type} (b : Backend σ)

/-- What is to be expected of a job. -/
def expected (g : Registrar (σ × List Query)) (j : Job) : Outcome σ :=
  (j.task.remaining b g.world.1 (g.set j.task.owner) j.pass).after g.world.2

theorem expected_moveTo (g : Registrar (σ × List Query)) (j : Job) (p : Pass) :
    expected b (g.moveTo j p).1 (g.moveTo j p).2 =
      (j.task.remaining b g.world.1 (g.set j.task.owner) p).after g.world.2 := by
  cases p <;> rfl

theorem release_moveTo {g : Registrar σ} {j : Job} {p : Pass} (hp : p ≠ .waiting) :
    ((g.moveTo j p).1.release (g.moveTo j p).2).busy = g.busy.erase j.task.owner := by
  cases p with
  | waiting => exact absurd rfl hp
  | _ => rfl

/-- The turn is free for a job that waits for it. -/
def Ready (g : Registrar σ) (j : Job) : Prop := j.pass = .waiting → j.task.owner ∉ g.busy

/-- A job has gone on to another one: the same is expected of it, and it has changed nothing that
belongs to others. -/
structure Continues (g : Registrar (σ × List Query)) (j : Job) (g' : Registrar (σ × List Query))
    (j' : Job) : Prop where
  task : j'.task = j.task
  expected : expected b g' j' = expected b g j
  busy : (g'.release j').busy = (g.release j).busy
  others (o : GroupVersionKind) : o ≠ j.task.owner → g'.set o = g.set o
  ready : Ready g' j'
  left : j'.left ≤ j.left

variable {b} {g : Registrar (σ × List Query)} {j : Job}

theorem Continues.refl (h : Ready g j) : Continues b g j g j :=
  ⟨rfl, rfl, rfl, fun _ _ => rfl, h, Nat.le_refl _⟩

theorem Continues.trans {g' g'' : Registrar (σ × List Query)} {j' j'' : Job}
    (h : Continues b g j g' j') (h' : Continues b g' j' g'' j'') : Continues b g j g'' j'' where
  task := h'.task.trans h.task
  expected := h'.expected.trans h.expected
  busy := h'.busy.trans h.busy
  others o ho := (h'.others o (h.task ▸ ho)).trans (h.others o ho)
  ready := h'.ready
  left := Nat.le_trans h'.left h.left

/-- A job goes over to a later stage. -/
theorem continues_moveTo {g' : Registrar (σ × List Query)} {p : Pass} (hp : p ≠ .waiting)
    (he : (j.task.remaining b g'.world.1 (g'.set j.task.owner) p).after g'.world.2 =
      expected b g j)
    (hb : g'.busy.erase j.task.owner = (g.release j).busy)
    (ho : ∀ o, o ≠ j.task.owner → g'.set o = g.set o)
    (hl : p.left j.task.manifest.resources.length < j.left) :
    Continues b g j (g'.moveTo j p).1 (g'.moveTo j p).2 ∧
      (g'.moveTo j p).2.left ≤ j.left - 1 := by
  have hlt : (g'.moveTo j p).2.left < j.left := by rwa [moveTo_snd]
  refine ⟨⟨?_, ?_, ?_, fun o h => ?_, fun h => ?_, Nat.le_of_lt hlt⟩, Nat.le_sub_one_of_lt hlt⟩
  · rw [moveTo_snd]
  · rw [expected_moveTo, he]
  · rw [release_moveTo hp, hb]
  · rw [set_moveTo, ho o h]
  · rw [moveTo_snd] at h
    exact absurd h hp

theorem release_of_kind? (g : Registrar σ) (h : j.pass.kind?.isSome) :
    (g.release j).busy = g.busy.erase j.task.owner := by
  rw [release, if_pos h]

/-- A step leads on, unless the job waits for an answer. -/
theorem step_continues (h : Ready g j) :
    Continues b g j (g.step b.logged j).1 (g.step b.logged j).2 ∧
      ((g.step b.logged j).2.left ≤ j.left - 1 ∨ ∃ s rest, j.pass = .subscribing s rest) := by
  cases hk : j.task.asked? j.pass with
  | some k =>
    rw [step_asked hk]
    refine And.imp_right .inl (continues_moveTo ?_ ?_ ?_ ?_ ?_)
    · exact j.task.onScope_ne_waiting hk _
    · rw [expected, j.task.remaining_onScope b hk, Registration.after_after]
      rfl
    · exact (g.release_of_kind? (j.task.kind?_of_asked hk)).symm
    · exact fun _ _ => rfl
    · exact j.task.left_onScope hk _ _
  | none =>
    cases hp : j.pass with
    | waiting =>
      rw [step_waiting hp (h hp)]
      refine And.imp_right .inl (continues_moveTo ?_ ?_ ?_ ?_ ?_)
      · exact j.task.seek_ne_waiting _ _
      · rw [expected, hp]
        exact congrArg _ (j.task.remaining_seek b _ _ _)
      · simp [release, hp, Pass.kind?]
      · exact fun _ _ => rfl
      · have hl := j.task.left_seek j.task.manifest.resources.length (g.set j.task.owner)
          j.task.manifest.resources
        rw [Job.left, hp]
        exact Nat.lt_succ_of_le hl
    | subscribe s rest =>
      rw [step_subscribe hp]
      refine And.imp_right .inl (continues_moveTo ?_ ?_ ?_ ?_ ?_)
      · simp
      · rw [expected, hp, Registration.remaining, Registration.fromCall, Registration.after_after]
        rfl
      · exact (g.release_of_kind? (by rw [hp]; rfl)).symm
      · exact fun _ _ => rfl
      · rw [Job.left, hp]
        exact Nat.lt_succ_self _
    | subscribing s rest =>
      rw [step_subscribing hp]
      exact ⟨.refl h, .inr ⟨s, rest, rfl⟩⟩
    | finished result =>
      rw [step_finished hp]
      exact ⟨.refl h, .inl (by simp [Job.left, Pass.left, hp])⟩
    | _ => simp [hp, Registration.asked?] at hk

/-- An answer leads on where a job waits for it. -/
theorem answer_continues (h : Ready g j) :
    Continues b g j (g.answer b.logged j).1 (g.answer b.logged j).2 ∧
      ((g.answer b.logged j).2.left ≤ j.left - 1 ∨
        g.answer b.logged j = (g, j) ∧ ∀ s rest, j.pass ≠ .subscribing s rest) := by
  obtain ⟨hn, hs⟩ | ⟨s, rest, world, hp, ⟨e, ha, hs⟩ | ⟨ha, hs⟩⟩ := g.answer_cases b.logged j
  · rw [hs]
    exact ⟨.refl h, .inr ⟨rfl, hn⟩⟩
  · rw [hs]
    simp only [Backend.logged, Prod.mk.injEq] at ha
    obtain ⟨ha, rfl⟩ := ha
    refine And.imp_right .inl (continues_moveTo ?_ ?_ ?_ ?_ ?_)
    · simp
    · rw [set_putSet, if_pos rfl, expected, hp, Registration.remaining_onSubscribed, ha]
      rfl
    · exact (g.release_of_kind? (by rw [hp]; rfl)).symm
    · intro o ho
      rw [set_putSet, if_neg ho]
      rfl
    · rw [Job.left, hp]
      exact Nat.zero_lt_succ _
  · rw [hs]
    simp only [Backend.logged, Prod.mk.injEq] at ha
    obtain ⟨ha, rfl⟩ := ha
    refine And.imp_right .inl (continues_moveTo ?_ ?_ ?_ ?_ ?_)
    · exact j.task.seek_ne_waiting _ _
    · rw [set_putSet, if_pos rfl, expected, hp, Registration.remaining_onSubscribed, ha]
      rfl
    · exact (g.release_of_kind? (by rw [hp]; rfl)).symm
    · intro o ho
      rw [set_putSet, if_neg ho]
      rfl
    · rw [Job.left, hp]
      exact Nat.lt_succ_of_le (j.task.left_seek _ _ _)

/-- What a job does next when it goes on. -/
def tick (b : Backend σ) (atOnce : Bool) : Registrar σ × Job → Registrar σ × Job
  | (g, j) =>
    match j.pass with
    | .subscribing .. => if atOnce then g.answer b j else (g, j)
    | _ => g.step b j

theorem advance_eq (b : Backend σ) (atOnce : Bool) (g : Registrar σ) (j : Job) :
    g.advance b atOnce j = j.fuel.repeat (tick b atOnce) (g, j) := rfl

theorem tick_continues (atOnce : Bool) (h : Ready g j) :
    Continues b g j (tick b.logged atOnce (g, j)).1 (tick b.logged atOnce (g, j)).2 ∧
      ((tick b.logged atOnce (g, j)).2.left ≤ j.left - 1 ∨
        ∃ s rest, j.pass = .subscribing s rest) := by
  simp only [tick]
  split
  · next s rest hp =>
    refine ⟨?_, .inr ⟨s, rest, hp⟩⟩
    split
    · exact (answer_continues h).1
    · exact .refl h
  · exact step_continues h

theorem repeat_continues (atOnce : Bool) (h : Ready g j) (n : Nat) :
    Continues b g j ((n + 1).repeat (tick b.logged atOnce) (g, j)).1
        ((n + 1).repeat (tick b.logged atOnce) (g, j)).2 ∧
      (((n + 1).repeat (tick b.logged atOnce) (g, j)).2.left ≤ j.left - 1 ∨
        ∃ s rest, j.pass = .subscribing s rest) := by
  induction n with
  | zero => exact tick_continues atOnce h
  | succ n ih =>
    have hn := (tick_continues (b := b) atOnce ih.1.ready).1
    exact ⟨ih.1.trans hn, ih.2.imp_left (Nat.le_trans hn.left)⟩

theorem advance_continues (atOnce : Bool) (h : Ready g j) :
    Continues b g j (g.advance b.logged atOnce j).1 (g.advance b.logged atOnce j).2 ∧
      ((g.advance b.logged atOnce j).2.left ≤ j.left - 1 ∨
        ∃ s rest, j.pass = .subscribing s rest) := by
  rw [advance_eq]
  exact repeat_continues atOnce h _

theorem round_singleton (b : Backend σ) (atOnce : Bool) (g : Registrar σ) (j : Job) :
    g.round b atOnce [j] = (((g.answer b j).1.advance b atOnce (g.answer b j).2).1,
      [((g.answer b j).1.advance b atOnce (g.answer b j).2).2]) := rfl

/-- A round leads on: the answer does, and else the first step. -/
theorem round_continues (atOnce : Bool) (h : Ready g j) :
    ∃ g' j', g.round b.logged atOnce [j] = (g', [j']) ∧ Continues b g j g' j' ∧
      j'.left ≤ j.left - 1 := by
  obtain ⟨ha, hl⟩ := answer_continues (b := b) h
  obtain ⟨hc, hl'⟩ := advance_continues (b := b) atOnce ha.ready
  refine ⟨_, _, round_singleton b.logged atOnce g j, ha.trans hc, ?_⟩
  -- Without an answer to wait for, the first step makes the progress.
  obtain hl | ⟨he, hn⟩ := hl
  · exact Nat.le_trans hc.left hl
  · rw [he] at hl' ⊢
    obtain hl' | ⟨s, rest, hp⟩ := hl'
    · exact hl'
    · exact absurd hp (hn s rest)

theorem left_eq_zero_iff (j : Job) : j.left = 0 ↔ j.result?.isSome := by
  cases hp : j.pass <;> simp [Job.left, Pass.left, Job.result?, hp]

/-- As many rounds as there are steps and answers left, and one more, lead to the end. -/
theorem rounds_continues (atOnce : Bool) {n : Nat} (h : Ready g j) (hn : j.left < n) :
    ∃ m g' j', rounds b.logged atOnce n g [j] = (m, g', [j']) ∧ Continues b g j g' j' ∧
      j'.result?.isSome := by
  induction n generalizing g j with
  | zero => omega
  | succ n ih =>
    obtain ⟨g', j', hr, hc, hl⟩ := round_continues (b := b) atOnce h
    by_cases hj : j'.result?.isSome
    · exact ⟨0, g', j', by simp [rounds, hr, hj], hc, hj⟩
    -- What is left has become less, so the rounds that remain are enough.
    · have hpos : j'.left ≠ 0 := fun hz => hj ((left_eq_zero_iff j').1 hz)
      obtain ⟨m, g'', j'', hrs, hcs, hs⟩ := ih hc.ready (by omega)
      exact ⟨m + 1, g'', j'', by simp [rounds, hr, hj, hrs], hc.trans hcs, hs⟩

/-- A registration for an owner kind that is free comes to its outcome: it makes the queries of the
outcome and no other, its result is that of the outcome, and so are the kinds that are registered
for the owner kind then. Nothing else changes. -/
theorem run_eq_outcome (b : Backend σ) (atOnce : Bool) (g : Registrar (σ × List Query))
    (task : Registration) (free : task.owner ∉ g.busy) :
    let o := task.outcome b g.world.1 (g.set task.owner) task.manifest.resources
    ∃ n g' j, g.run b.logged atOnce [task] = (n, g', [j]) ∧ j.result? = some o.result ∧
      g'.set task.owner = o.set ∧ g'.world = (o.world, g.world.2 ++ o.queries) ∧
      (∀ owner, owner ≠ task.owner → g'.set owner = g.set owner) ∧ g'.busy = g.busy := by
  intro o
  have hl : (Job.start task).left = (Job.start task).fuel := rfl
  obtain ⟨n, g', j, hr, hc, hj⟩ := rounds_continues (b := b) (j := .start task) atOnce
    (fun _ => free) (Nat.lt_succ_of_le (Nat.le_of_eq hl))
  have hrun : g.run b.logged atOnce [task] = (n, g', [j]) := by
    simpa [run] using hr
  obtain ⟨result, hres⟩ := Option.isSome_iff_exists.1 hj
  have hp : j.pass = .finished result := by
    cases hp : j.pass <;> simp_all [Job.result?]
  have hown : j.task = task := hc.task
  have he : (⟨result, g'.set task.owner, g'.world.1, g'.world.2 ++ []⟩ : Outcome σ) =
      o.after g.world.2 := by
    have := hc.expected
    rwa [expected, hp, hown] at this
  have hb := hc.busy
  rw [release, hp] at hb
  refine ⟨n, g', j, hrun, ?_, ?_, ?_, hc.others, hb⟩
  · rw [hres]
    exact congrArg some (congrArg Outcome.result he)
  · exact congrArg Outcome.set he
  · have hw := congrArg Outcome.world he
    have hcalls := congrArg Outcome.queries he
    rw [List.append_nil] at hcalls
    exact Prod.ext hw hcalls

/-- The resources of a deployment in a manifest whose last document is malformed. The policy of the
secret is to keep it; that of the service is not, whatever Helm has for it. -/
def deployed : Registration :=
  let resource (index : Nat) (kind : String) (annotations : TextMap) : Resource :=
    ⟨index, ⟨"", "v1", kind⟩, some "app", none, annotations⟩
  let keptByHelm := TextMap.empty.insert Annotations.helmResourcePolicy " keep"
  ⟨⟨"apps", "v1", "Deployment"⟩, [.dependentChanges],
    ⟨[resource 0 "ConfigMap" .empty, resource 1 "ConfigMap" keptByHelm,
      resource 2 "Secret" keptByHelm,
      resource 3 "Service" (keptByHelm.insert Annotations.resourcePolicy "delete"),
      resource 4 "Namespace" .empty], some (.manifestParse 5 .malformed)⟩⟩

theorem run_eq_outcome_deployed :
    let g : Registrar ((ScopeTable × Recorder) × List Query) := .start ((.builtins, .empty), [])
    let owner : GroupVersionKind := ⟨"apps", "v1", "Deployment"⟩
    let byReference := Handler.ownerReference "apps" "Deployment" .namespaced
    let byAnnotations := Handler.annotations "Deployment.apps"
    let queries (kind : String) (h : Handler) : List Query :=
      [.lookup owner, .lookup ⟨"", "v1", kind⟩,
        .subscribe ⟨⟨"", "v1", kind⟩, h, [.dependentChanges]⟩]
    deployed.owner ∉ g.busy ∧
    ∃ n g' j, g.run Backend.recording.logged false [deployed] = (n, g', [j]) ∧
      j.result? = some (.error (.manifestParse 5 .malformed)) ∧
      g'.world.2 = queries "ConfigMap" byReference ++ queries "Secret" byAnnotations ++
        queries "Service" byReference ++ queries "Namespace" byAnnotations := by
  intro g owner byReference byAnnotations queries
  have free : deployed.owner ∉ g.busy := List.not_mem_nil
  obtain ⟨n, g', j, hr, hres, _, hw, _⟩ := run_eq_outcome Backend.recording false g deployed free
  refine ⟨free, n, g', j, hr, ?_, ?_⟩
  · rw [hres]
    rfl
  · rw [hw]
    decide

end Registrar
end DependentWatch
