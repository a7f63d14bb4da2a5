import DependentWatch.Proofs.Discovery.Versions
import DependentWatch.Proofs.History
import Mathlib.Data.List.Nodup
import Mathlib.Data.List.ReduceOption
/-! Lookups of scopes while the server changes. What was told last is kept, whatever fails after it,
and discovery runs once for each lookup of a kind that is not in it. -/
namespace DependentWatch

/-- What is kept, and the server that is asked. -/
structure Resolver (σ : Type) where
  cache : Snapshot
  server : σ

namespace Resolver
variable {σ : Type} (discover : σ → Option Snapshot × σ)

/-- A run of discovery that is noted down with what it told. -/
def note (w : σ × List (Option Snapshot)) : Option Snapshot × σ × List (Option Snapshot) :=
  ((discover w.1).1, (discover w.1).2, w.2 ++ [(discover w.1).1])

/-- A lookup with all that was told for it. -/
def resolve (r : Resolver σ) (k : GroupVersionKind) :
    Except WatchError Scope × List (Option Snapshot) × Resolver σ :=
  let (answer, cache, server, told) := r.cache.resolve (note discover) (r.server, []) k
  (answer, told, ⟨cache, server⟩)

def refresh (r : Resolver σ) : Except WatchError Unit × List (Option Snapshot) × Resolver σ :=
  let (answer, cache, server, told) := r.cache.refresh (note discover) (r.server, [])
  (answer, told, ⟨cache, server⟩)

/-- The resolver after a run of discovery. -/
def learn (r : Resolver σ) : Resolver σ :=
  ⟨(discover r.server).1.getD r.cache, (discover r.server).2⟩

variable {discover} {r : Resolver σ} {k : GroupVersionKind}

theorem refresh_eq (r : Resolver σ) :
    (r.refresh discover).2 = ([(discover r.server).1], r.learn discover) := by
  unfold refresh Snapshot.refresh note learn
  cases (discover r.server).1 <;> rfl

theorem resolve_of_known {scope : Scope} (h : r.cache.scope? k = some scope) :
    r.resolve discover k = (.ok scope, [], r) := by
  unfold resolve Snapshot.resolve
  rw [h]

/-- A kind that is not known is looked up in what one run of discovery tells. -/
theorem resolve_of_unknown (h : r.cache.scope? k = none) :
    r.resolve discover k = ((discover r.server).1.elim (.error (.api "")) (·.answer k),
      [(discover r.server).1], r.learn discover) := by
  unfold resolve Snapshot.resolve Snapshot.refresh note learn
  rw [h]
  cases (discover r.server).1 <;> rfl

/-! Sequences of calls. -/

inductive Call (σ : Type) where
  | resolve (k : GroupVersionKind)
  | refresh
  /-- The server becomes another one by itself. -/
  | change (server : σ)

variable (discover) in
def perform (r : Resolver σ) : Call σ → List (Option Snapshot) × Resolver σ
  | .resolve k => (r.resolve discover k).2
  | .refresh => (r.refresh discover).2
  | .change server => ([], { r with server })

variable (discover) in
/-- The log holds what discovery told. -/
def system : System (Resolver σ) (Call σ) (Option Snapshot) where
  step r c := (r.perform discover c).2
  marks r c := (r.perform discover c).1

/-- What was told last; runs that failed told nothing. -/
def newest (start : Snapshot) (told : List (Option Snapshot)) : Snapshot :=
  told.reduceOption.getLastD start

theorem newest_concat (start : Snapshot) (told : List (Option Snapshot)) (t : Option Snapshot) :
    newest start (told ++ [t]) = t.getD (newest start told) := by
  cases t <;> simp [newest, List.reduceOption_append]

/-- A call that runs discovery runs it once. -/
theorem perform_cases (r : Resolver σ) (c : Call σ) :
    ((r.perform discover c).1 = [] ∧ (r.perform discover c).2.cache = r.cache) ∨
      r.perform discover c = ([(discover r.server).1], r.learn discover) := by
  cases c with
  | resolve k =>
    cases h : r.cache.scope? k with
    | some scope =>
      rw [perform, resolve_of_known h]
      exact .inl ⟨rfl, rfl⟩
    | none =>
      rw [perform, resolve_of_unknown h]
      exact .inr rfl
  | refresh => exact .inr r.refresh_eq
  | change server => exact .inl ⟨rfl, rfl⟩

theorem cache_run (start : Snapshot) (server : σ) (calls : List (Call σ)) :
    ((system discover).run ⟨start, server⟩ calls).cache =
      newest start ((system discover).log ⟨start, server⟩ calls) := by
  have keep (r : Resolver σ) (told : List (Option Snapshot)) (c : Call σ)
      (h : r.cache = newest start told) :
      (r.perform discover c).2.cache = newest start (told ++ (r.perform discover c).1) := by
    obtain ⟨htold, hcache⟩ | hlearn := r.perform_cases c
    · rw [htold, hcache, List.append_nil, h]
    · rw [hlearn, newest_concat, ← h]
      rfl
  exact (system discover).invariant (A := fun _ _ => True)
    (I := fun r told => r.cache = newest start told) (l := []) (fun r told c h _ => keep r told c h)
    rfl ((system discover).throughout_of_forall (fun _ _ _ => trivial) _)

/-! How lookups are answered. -/

/-- An answer from what was told for a lookup. A kind that is not served is reported with the
versions of its group that do serve it, and with its own one last. -/
structure AnswersFrom (s : Snapshot) (k : GroupVersionKind) (answer : Except WatchError Scope) :
    Prop where
  ok_iff : ∀ scope, answer = .ok scope ↔ s.scope? k = some scope
  notFound_iff : (∃ group kind versions, answer = .error (.kindNotFound group kind versions)) ↔
    s.scope? k = none
  searched : ∀ group kind versions, answer = .error (.kindNotFound group kind versions) →
    group = k.group ∧ kind = k.kind ∧ versions.Nodup ∧
    ∃ served, versions = served ++ [k.version] ∧
      served.Sublist ((s.versionsOf k.group).map Prod.fst) ∧
      served.Pairwise (fun v w => (Maturity.ofText v).before (.ofText w)) ∧
      ∀ v, v ∈ served ↔ (s.scope? ⟨k.group, v, k.kind⟩).isSome

theorem answersFrom_answer {s : Snapshot} (hs : s.Ordered) (k : GroupVersionKind) :
    AnswersFrom s k (s.answer k) := by
  cases h : s.scope? k with
  | some scope =>
    rw [Snapshot.answer_of_some h]
    refine ⟨fun _ => ?_, ?_, ?_⟩
    · rw [h, Except.ok.injEq, Option.some.injEq]
    · rw [h]
      simp
    · intro _ _ _ he
      cases he
  | none =>
    obtain ⟨hv, ha⟩ := Snapshot.answer_of_none hs h
    have hsub := s.served_sublist k.group k.kind
    rw [ha]
    refine ⟨fun _ => ?_, ?_, ?_⟩
    · rw [h]
      simp
    · rw [h]
      simp
    · intro group kind versions he
      cases he
      refine ⟨rfl, rfl, ?_, _, rfl, hsub, (hs.inOrder k.group).sublist hsub,
        fun v => Snapshot.mem_served_iff hs k.group v k.kind⟩
      rw [← List.concat_eq_append]
      exact List.Nodup.concat hv ((hs.distinct k.group).sublist hsub)

variable (discover) in
/-- A lookup with its answer and what was told for it. -/
structure LooksUp (r : Resolver σ) (k : GroupVersionKind) (answer : Except WatchError Scope)
    (told : List (Option Snapshot)) (next : Resolver σ) : Prop where
  known : ∀ scope, r.cache.scope? k = some scope → answer = .ok scope ∧ told = [] ∧ next = r
  unknown : r.cache.scope? k = none →
    told = [(discover r.server).1] ∧ next.server = (discover r.server).2
  failed : r.cache.scope? k = none → (discover r.server).1 = none →
    answer = .error (.api "") ∧ next.cache = r.cache
  learned : ∀ s, r.cache.scope? k = none → (discover r.server).1 = some s →
    next.cache = s ∧ AnswersFrom s k answer
  again : ∀ scope, answer = .ok scope → next.resolve discover k = (.ok scope, [], next)

theorem cache_learn_of_some {s : Snapshot} (h : (discover r.server).1 = some s) :
    (r.learn discover).cache = s := by
  rw [learn, h]
  rfl

theorem cache_learn_of_none (h : (discover r.server).1 = none) :
    (r.learn discover).cache = r.cache := by
  rw [learn, h]
  rfl

theorem looksUp_of_known {scope : Scope} (h : r.cache.scope? k = some scope) :
    LooksUp discover r k (.ok scope) [] r where
  known scope' h' := ⟨congrArg _ (Option.some.inj (h.symm.trans h')), rfl, rfl⟩
  unknown h' := nomatch h.symm.trans h'
  failed h' := nomatch h.symm.trans h'
  learned _ h' := nomatch h.symm.trans h'
  again _ ha := by
    cases ha
    exact resolve_of_known h

theorem looksUp_of_unknown (hd : ∀ server s, (discover server).1 = some s → s.Ordered)
    (h : r.cache.scope? k = none) :
    LooksUp discover r k ((discover r.server).1.elim (.error (.api "")) (·.answer k))
      [(discover r.server).1] (r.learn discover) where
  known _ h' := nomatch h.symm.trans h'
  unknown _ := ⟨rfl, rfl⟩
  failed _ ht := by
    rw [ht]
    exact ⟨rfl, cache_learn_of_none ht⟩
  learned s _ ht := by
    rw [ht]
    exact ⟨cache_learn_of_some ht, answersFrom_answer (hd _ _ ht) k⟩
  again scope ha := by
    cases ht : (discover r.server).1 with
    | none =>
      rw [ht] at ha
      cases ha
    | some s =>
      rw [ht] at ha
      have hfound := ((answersFrom_answer (hd _ _ ht) k).ok_iff scope).1 ha
      exact resolve_of_known (by rw [cache_learn_of_some ht, hfound])

theorem looksUp (hd : ∀ server s, (discover server).1 = some s → s.Ordered) (r : Resolver σ)
    (k : GroupVersionKind) :
    LooksUp discover r k (r.resolve discover k).1 (r.resolve discover k).2.1
      (r.resolve discover k).2.2 := by
  cases h : r.cache.scope? k with
  | some scope =>
    rw [resolve_of_known h]
    exact looksUp_of_known h
  | none =>
    rw [resolve_of_unknown h]
    exact looksUp_of_unknown hd h

/-- After any calls, while the server changes and fails as it likes, what is kept is what was told
last, and each lookup is answered from it, or from the one run of discovery that it makes. -/
theorem lookup_runs_discovery_at_most_once
    (hd : ∀ server s, (discover server).1 = some s → s.Ordered) (start : Snapshot) (server : σ)
    (calls : List (Call σ)) (k : GroupVersionKind) :
    let r := (system discover).run ⟨start, server⟩ calls
    r.cache = newest start ((system discover).log ⟨start, server⟩ calls) ∧
      LooksUp discover r k (r.resolve discover k).1 (r.resolve discover k).2.1
        (r.resolve discover k).2.2 :=
  ⟨cache_run start server calls, looksUp hd _ k⟩

theorem lookup_runs_discovery_at_most_once_gizmo :
    let told : Snapshot := ⟨[("example.com",
      [("v1", [("Widget", .namespaced), ("Gizmo", .cluster)]), ("v1beta1", [("Widget", .namespaced)])])]⟩
    let down : {server : ApiServer // server.Distinct} := ⟨⟨[], true, 0⟩, by simp [ApiServer.Distinct]⟩
    let r := (system ApiServer.discoverDistinct).run ⟨told, down⟩
      [.resolve ⟨"example.com", "v2", "Widget"⟩, .refresh]
    (∀ server s, (ApiServer.discoverDistinct server).1 = some s → s.Ordered) ∧ r.cache = told ∧
      r.resolve ApiServer.discoverDistinct ⟨"example.com", "v1", "Gizmo"⟩ = (.ok .cluster, [], r) := by
  intro told down r
  have hd (server : {server : ApiServer // server.Distinct}) (s : Snapshot)
      (hs : (ApiServer.discoverDistinct server).1 = some s) : s.Ordered := server.2.ordered hs
  have hrun := lookup_runs_discovery_at_most_once hd told down
    [.resolve ⟨"example.com", "v2", "Widget"⟩, .refresh] ⟨"example.com", "v1", "Gizmo"⟩
  have hcache : r.cache = told := by decide +kernel
  have hknown : r.cache.scope? ⟨"example.com", "v1", "Gizmo"⟩ = some .cluster := by decide +kernel
  obtain ⟨hanswer, htold, hnext⟩ := hrun.2.known .cluster hknown
  exact ⟨hd, hcache, Prod.ext hanswer (Prod.ext htold hnext)⟩

end Resolver
end DependentWatch
