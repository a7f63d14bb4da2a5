import DependentWatch.Proofs.Registration.Outcome
/-! Registrations one at a time: what each reports, and the kinds that it leaves registered. -/
namespace DependentWatch

/-- The backend that keeps a list of the subscriptions that are made. -/
def Backend.noting {σ : Type} (b : Backend σ) : Backend (σ × List Subscription) where
  scope w k := ((b.scope w.1 k).1, (b.scope w.1 k).2, w.2)
  call w s := (b.call w.1 s, w.2)
  answer w s := ((b.answer w.1 s).1, (b.answer w.1 s).2,
    match (b.answer w.1 s).1 with
    | .ok () => w.2 ++ [s]
    | .error _ => w.2)

namespace KindSet

/-- These kinds were registered, each of them new. -/
structure Gains (before : KindSet) (new : List GroupVersionKind) (after : KindSet) : Prop where
  mem_iff (k : GroupVersionKind) : k ∈ after ↔ k ∈ before ∨ k ∈ new
  nodup : new.Nodup
  fresh : ∀ k ∈ new, k ∉ before

namespace Gains
variable {s t u : KindSet} {new later : List GroupVersionKind}

theorem refl (s : KindSet) : Gains s [] s := ⟨fun k => by simp, List.nodup_nil, by simp⟩

theorem insert {k : GroupVersionKind} (h : k ∉ s) : Gains s [k] (s.insert k) where
  mem_iff x := by rw [mem_insert, List.mem_singleton, or_comm]
  nodup := by simp
  fresh x hx := by rwa [List.mem_singleton.1 hx]

theorem trans (h : Gains s new t) (h' : Gains t later u) : Gains s (new ++ later) u where
  mem_iff k := by rw [h'.mem_iff, h.mem_iff, List.mem_append, or_assoc]
  nodup := by
    refine List.nodup_append.2 ⟨h.nodup, h'.nodup, fun k hk l hl he => ?_⟩
    have : k ∈ t := (h.mem_iff k).2 (.inr hk)
    exact h'.fresh l hl (he ▸ this)
  fresh k hk := by
    obtain hk | hk := List.mem_append.1 hk
    · exact h.fresh k hk
    · exact fun hs => h'.fresh k hk ((h.mem_iff k).2 (.inl hs))

theorem mem (h : Gains s new t) {k : GroupVersionKind} (hk : k ∈ s) : k ∈ t :=
  (h.mem_iff k).2 (.inl hk)

/-- A kind is new just where it is registered now and was not before. -/
theorem mem_new_iff (h : Gains s new t) (k : GroupVersionKind) : k ∈ new ↔ k ∈ t ∧ k ∉ s := by
  constructor
  · exact fun hk => ⟨(h.mem_iff k).2 (.inr hk), h.fresh k hk⟩
  · intro hk
    exact ((h.mem_iff k).1 hk.1).resolve_left hk.2

end Gains
end KindSet

namespace Registration
variable {σ : Type} (b : Backend σ) (g : Registration)

/-- Of a resource whose kind is not registered: either an error ends the pass, or a subscription to
its kind is made. -/
theorem noted_cons_cases {set : KindSet} {r : Resource} (h : r.gvk ∉ set) (world : σ)
    (made : List Subscription) (rest : List Resource) :
    (∃ e w queries, g.outcome b.noting (world, made) set (r :: rest) =
      ⟨.error e, set, (w, made), queries⟩) ∨
    ∃ s w queries, s.kind = r.gvk ∧ g.outcome b.noting (world, made) set (r :: rest) =
      (g.outcome b.noting (w, made ++ [s]) (set.insert r.gvk) rest).after queries := by
  rw [outcome, if_neg h]
  simp only [Backend.noting]
  cases b.scope world g.owner with
  | mk answer world =>
  cases answer with
  | error e => exact .inl ⟨e, _, _, rfl⟩
  | ok owner =>
  simp only
  cases b.scope world r.gvk with
  | mk answer world =>
  cases answer with
  | error e => exact .inl ⟨e, _, _, rfl⟩
  | ok dependent =>
  simp only
  cases b.answer _ _ with
  | mk answer world =>
  cases answer with
  | error e => exact .inl ⟨e, _, _, rfl⟩
  | ok u => exact .inr ⟨_, _, _, rfl, rfl⟩

/-- A pass registers the kinds to which subscriptions are made. They are kinds of its resources, and
without an error all of them are registered. -/
theorem outcome_gains (world : σ) (made : List Subscription) (set : KindSet) (rs : List Resource) :
    ∃ new, (g.outcome b.noting (world, made) set rs).world.2 = made ++ new ∧
      set.Gains (new.map (·.kind)) (g.outcome b.noting (world, made) set rs).set ∧
      (∀ s ∈ new, ∃ r ∈ rs, r.gvk = s.kind) ∧
      ((g.outcome b.noting (world, made) set rs).result = .ok () →
        ∀ r ∈ rs, r.gvk ∈ (g.outcome b.noting (world, made) set rs).set) := by
  induction rs generalizing world made set with
  | nil =>
    refine ⟨[], ?_, ?_, by simp, by simp⟩
    · unfold outcome
      cases g.manifest.error <;> simp
    · unfold outcome
      cases g.manifest.error <;> exact .refl set
  | cons r rest ih =>
    by_cases h : r.gvk ∈ set
    · rw [outcome, if_pos h]
      obtain ⟨new, hw, hg, hs, hok⟩ := ih world made set
      refine ⟨new, hw, hg, fun s hm => ?_, fun ho x hx => ?_⟩
      · obtain ⟨x, hx, he⟩ := hs s hm
        exact ⟨x, List.mem_cons_of_mem r hx, he⟩
      · obtain rfl | hx := List.mem_cons.1 hx
        · exact hg.mem h
        · exact hok ho x hx
    · obtain ⟨e, w, queries, he⟩ | ⟨s, w, queries, hk, he⟩ := g.noted_cons_cases b h world made rest
      · rw [he]
        exact ⟨[], by simp, .refl set, by simp, by simp⟩
      · rw [he]
        obtain ⟨new, hw, hg, hs, hok⟩ := ih w (made ++ [s]) (set.insert r.gvk)
        have hfirst : set.Gains [s.kind] (set.insert r.gvk) := by
          rw [hk]
          exact .insert h
        refine ⟨s :: new, ?_, hfirst.trans hg, fun x hx => ?_, fun ho x hx => ?_⟩
        · simpa [Outcome.after] using hw
        · obtain rfl | hx := List.mem_cons.1 hx
          · exact ⟨r, List.mem_cons_self, hk.symm⟩
          · obtain ⟨y, hy, he⟩ := hs x hx
            exact ⟨y, List.mem_cons_of_mem r hy, he⟩
        · obtain rfl | hx := List.mem_cons.1 hx
          · exact hg.mem ((KindSet.mem_insert ..).2 (.inl rfl))
          · exact hok ho x hx

/-- Where all kinds are registered nothing is asked for. -/
theorem outcome_of_forall_mem (world : σ) {set : KindSet} {rs : List Resource}
    (h : ∀ r ∈ rs, r.gvk ∈ set) (hm : g.manifest.error = none) :
    g.outcome b world set rs = ⟨.ok (), set, world, []⟩ := by
  induction rs with
  | nil => simp [outcome, hm]
  | cons r rest ih =>
    rw [outcome, if_pos (h r List.mem_cons_self)]
    exact ih fun x hx => h x (List.mem_cons_of_mem r hx)

end Registration

instance decidableEqExcept {ε α : Type} [DecidableEq ε] [DecidableEq α] :
    DecidableEq (Except ε α)
  | .error e, .error e' => decidable_of_iff (e = e') ⟨congrArg _, Except.error.inj⟩
  | .ok a, .ok a' => decidable_of_iff (a = a') ⟨congrArg _, Except.ok.inj⟩
  | .error _, .ok _ => .isFalse (by simp)
  | .ok _, .error _ => .isFalse (by simp)

/-- What can be seen of a registration: its result, what it asked for, and the subscriptions that
were made. -/
structure Report where
  owner : GroupVersionKind
  result : Option (Except WatchError Unit)
  queries : List Query
  made : List Subscription
deriving DecidableEq

namespace Registrar
variable {σ τ : Type}

def withWorld (g : Registrar σ) (world : τ) : Registrar τ := ⟨world, g.sets, g.busy⟩

@[simp] theorem set_withWorld (g : Registrar σ) (world : τ) (o : GroupVersionKind) :
    (g.withWorld world).set o = g.set o := rfl

@[simp] theorem busy_withWorld (g : Registrar σ) (world : τ) : (g.withWorld world).busy = g.busy :=
  rfl

/-- Runs a registration on its own. -/
def report (b : Backend σ) (atOnce : Bool) (g : Registrar σ) (task : Registration) :
    Report × Registrar σ :=
  let (_, after, jobs) := (g.withWorld ((g.world, []), [])).run b.noting.logged atOnce [task]
  (⟨task.owner, jobs.head?.bind Job.result?, after.world.2, after.world.1.2⟩,
    after.withWorld after.world.1.1)

/-- A registration reports its outcome. -/
theorem report_eq (b : Backend σ) (atOnce : Bool) (g : Registrar σ) {task : Registration}
    (free : task.owner ∉ g.busy) :
    let o := task.outcome b.noting (g.world, []) (g.set task.owner) task.manifest.resources
    (g.report b atOnce task).1 = ⟨task.owner, some o.result, o.queries, o.world.2⟩ ∧
    (g.report b atOnce task).2.world = o.world.1 ∧
    (∀ owner, (g.report b atOnce task).2.set owner =
      if owner = task.owner then o.set else g.set owner) ∧
    (g.report b atOnce task).2.busy = g.busy := by
  intro o
  have hready : Ready (g.withWorld ((g.world, ([] : List Subscription)), ([] : List Query)))
      (.start task) := fun _ => free
  obtain ⟨n, after, j, hr, hc, hj⟩ := rounds_continues (b := b.noting) atOnce hready
    (Nat.lt_succ_of_le (Nat.le_refl (Job.start task).fuel))
  obtain ⟨result, hres⟩ := Option.isSome_iff_exists.1 hj
  have hp : j.pass = .finished result := by
    cases hp : j.pass <;> simp_all [Job.result?]
  have htask : j.task = task := hc.task
  have hrun : g.report b atOnce task =
      (⟨task.owner, some result, after.world.2, after.world.1.2⟩,
        after.withWorld after.world.1.1) := by
    have hr : (g.withWorld ((g.world, ([] : List Subscription)), ([] : List Query))).run
        b.noting.logged atOnce [task] = (n, after, [j]) := by
      simpa [run] using hr
    simp [report, hr, hres]
  have ho : (⟨result, after.set task.owner, after.world.1, after.world.2 ++ []⟩ :
      Outcome (σ × List Subscription)) = o := by
    have he := hc.expected
    rwa [expected, hp, htask] at he
  rw [List.append_nil] at ho
  have hb := hc.busy
  rw [release, hp] at hb
  rw [hrun, ← ho]
  refine ⟨rfl, rfl, fun owner => ?_, hb⟩
  rw [set_withWorld]
  split
  · next h => rw [h]
  · next h => exact hc.others owner h

/-- What some registrations of one task do to the kinds that are registered for its owner kind: all
those of the manifest are registered as soon as one of them succeeds. -/
structure Registers (g : Registrar σ) (task : Registration) (reports : List Report)
    (after : Registrar σ) : Prop where
  ended : ∀ r ∈ reports, r.result.isSome
  gains : (g.set task.owner).Gains ((reports.flatMap (·.made)).map (·.kind)) (after.set task.owner)
  kinds : ∀ s ∈ reports.flatMap (·.made), ∃ x ∈ task.manifest.resources, x.gvk = s.kind
  all : (∃ r ∈ reports, r.result = some (.ok ())) →
    ∀ x ∈ task.manifest.resources, x.gvk ∈ after.set task.owner
  busy : after.busy = g.busy

namespace Registers
variable {g g' g'' : Registrar σ} {task : Registration} {reports later : List Report}

theorem nil (g : Registrar σ) (task : Registration) : Registers g task [] g :=
  ⟨by simp, .refl _, by simp, by simp, rfl⟩

theorem append (h : Registers g task reports g') (h' : Registers g' task later g'') :
    Registers g task (reports ++ later) g'' where
  ended r hr := (List.mem_append.1 hr).elim (h.ended r) (h'.ended r)
  gains := by
    rw [List.flatMap_append, List.map_append]
    exact h.gains.trans h'.gains
  kinds s hs := by
    rw [List.flatMap_append, List.mem_append] at hs
    exact hs.elim (h.kinds s) (h'.kinds s)
  all hr x hx := by
    obtain ⟨r, hr, hok⟩ := hr
    obtain hr | hr := List.mem_append.1 hr
    · exact h'.gains.mem (h.all ⟨r, hr, hok⟩ x hx)
    · exact h'.all ⟨r, hr, hok⟩ x hx
  busy := h'.busy.trans h.busy

theorem of_withWorld {world : σ} (h : Registers (g.withWorld world) task reports g') :
    Registers g task reports g' :=
  ⟨h.ended, h.gains, h.kinds, h.all, h.busy⟩

end Registers

theorem report_registers (b : Backend σ) (atOnce : Bool) (g : Registrar σ) {task : Registration}
    (free : task.owner ∉ g.busy) :
    g.Registers task [(g.report b atOnce task).1] (g.report b atOnce task).2 := by
  obtain ⟨hr, _, hset, hb⟩ := g.report_eq b atOnce free
  obtain ⟨new, hw, hg, hs, hok⟩ :=
    task.outcome_gains b g.world [] (g.set task.owner) task.manifest.resources
  rw [List.nil_append] at hw
  have hown := (hset task.owner).trans (if_pos rfl)
  refine ⟨?_, ?_, ?_, fun h x hx => ?_, hb⟩
  · rw [hr]
    simp
  · rw [hr, hown]
    simpa [hw] using hg
  · rw [hr]
    simpa [hw] using hs
  · rw [hown]
    rw [hr] at h
    exact hok (by simpa using h) x hx

/-- A registration all of whose kinds are registered asks for nothing and changes nothing. -/
theorem report_of_forall_mem (b : Backend σ) (atOnce : Bool) (g : Registrar σ) {task : Registration}
    (free : task.owner ∉ g.busy) (hm : task.manifest.error = none)
    (hk : ∀ r ∈ task.manifest.resources, r.gvk ∈ g.set task.owner) :
    (g.report b atOnce task).1 = ⟨task.owner, some (.ok ()), [], []⟩ ∧
    (g.report b atOnce task).2.world = g.world ∧
    ∀ owner, (g.report b atOnce task).2.set owner = g.set owner := by
  obtain ⟨hr, hw, hset, _⟩ := g.report_eq b atOnce free
  have ho := task.outcome_of_forall_mem b.noting (g.world, []) hk hm
  rw [ho] at hr hw hset
  refine ⟨hr, hw, fun owner => ?_⟩
  rw [hset]
  split
  · next h => rw [h]
  · rfl

end Registrar
end DependentWatch
