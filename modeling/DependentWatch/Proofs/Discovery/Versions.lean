import DependentWatch.Discovery
import DependentWatch.Proofs.Lookup
/-! The versions that a server serves, each once and in the order of their maturity. A lookup finds
a kind in a version exactly if the version is one of those that serve the kind. -/
namespace DependentWatch

namespace Maturity

theorem atLeast_total (m n : Option Nat) : atLeast m n || atLeast n m := by
  cases m <;> cases n <;> simp [atLeast]
  omega

theorem atLeast_trans {l m n : Option Nat} (h₁ : atLeast l m) (h₂ : atLeast m n) : atLeast l n := by
  cases l <;> cases m <;> cases n <;> simp_all [atLeast]
  omega

theorem before_total (a b : Maturity) : a.before b || b.before a := by
  have hminor (m n : Option Nat) := atLeast_total m n
  -- Only maturities of one kind are compared by their numbers.
  cases a <;> cases b <;> simp only [before] <;> grind

theorem before_trans (a b c : Maturity) (h₁ : a.before b) (h₂ : b.before c) : a.before c := by
  have hminor (l m n : Option Nat) (h₁ : atLeast l m) (h₂ : atLeast m n) := atLeast_trans h₁ h₂
  cases a <;> cases b <;> cases c <;> simp only [before] at h₁ h₂ ⊢ <;> grind

end Maturity

namespace Snapshot

/-- Each group has each of its versions once, the more mature ones first. -/
structure Ordered (s : Snapshot) : Prop where
  distinct : ∀ group, ((s.versionsOf group).map Prod.fst).Nodup
  inOrder : ∀ group, ((s.versionsOf group).map Prod.fst).Pairwise fun v w =>
    (Maturity.ofText v).before (.ofText w)

/-- The versions of a group as they are told. -/
def ofGroup (g : ApiGroup) : List (String × List (String × Scope)) :=
  (g.versions.map fun v => (v.version, v.kinds)).mergeSort fun a b =>
    (Maturity.ofText a.1).before (.ofText b.1)

theorem nodup_ofGroup {g : ApiGroup} (h : (g.versions.map (·.version)).Nodup) :
    ((ofGroup g).map Prod.fst).Nodup := by
  rw [ofGroup, ((List.mergeSort_perm _ _).map Prod.fst).nodup_iff, List.map_map]
  exact h

theorem pairwise_ofGroup (g : ApiGroup) : ((ofGroup g).map Prod.fst).Pairwise fun v w =>
    (Maturity.ofText v).before (.ofText w) := by
  have htrans (a b c : String × List (String × Scope)) :=
    Maturity.before_trans (.ofText a.1) (.ofText b.1) (.ofText c.1)
  have htotal (a b : String × List (String × Scope)) :=
    Maturity.before_total (.ofText a.1) (.ofText b.1)
  rw [List.pairwise_map]
  exact List.pairwise_mergeSort htrans htotal _

theorem versionsOf_of_ofApi? {api : List ApiGroup} {s : Snapshot} (h : ofApi? api = some s)
    (group : String) : s.versionsOf group = [] ∨ ∃ g ∈ api, s.versionsOf group = ofGroup g := by
  have hs : s = ⟨api.map fun g => (g.group, ofGroup g)⟩ := by
    unfold ofApi? at h
    split at h
    · cases h
    · exact (Option.some.inj h).symm
  rw [versionsOf, hs]
  cases hv : (api.map fun g => (g.group, ofGroup g)).lookup group with
  | none => exact .inl rfl
  | some versions =>
    obtain ⟨g, hg, he⟩ := List.mem_map.1 (mem_of_lookup hv)
    exact .inr ⟨g, hg, (Prod.mk.inj he).2.symm⟩

/-- What a server tells is in order, in whatever order its groups list their versions. -/
theorem ordered_of_ofApi? {api : List ApiGroup} {s : Snapshot} (h : ofApi? api = some s)
    (hd : ∀ g ∈ api, (g.versions.map (·.version)).Nodup) : s.Ordered := by
  constructor
  · intro group
    obtain hv | ⟨g, hg, hv⟩ := versionsOf_of_ofApi? h group
    · rw [hv]
      exact .nil
    · rw [hv]
      exact nodup_ofGroup (hd g hg)
  · intro group
    obtain hv | ⟨g, -, hv⟩ := versionsOf_of_ofApi? h group
    · rw [hv]
      exact .nil
    · rw [hv]
      exact pairwise_ofGroup g

theorem served_sublist (s : Snapshot) (group kind : String) :
    (s.served group kind).Sublist ((s.versionsOf group).map Prod.fst) :=
  List.filter_sublist.map Prod.fst

theorem any_kind_iff (kinds : List (String × Scope)) (kind : String) :
    kinds.any (·.1 = kind) ↔ (kinds.lookup kind).isSome := by
  induction kinds with
  | nil => exact iff_of_false Bool.false_ne_true Bool.false_ne_true
  | cons e kinds ih =>
    obtain ⟨kind', scope⟩ := e
    rw [List.any_cons, Bool.or_eq_true, decide_eq_true_eq, lookup_cons_ite, ih]
    by_cases h : kind = kind'
    · simp [h]
    · simp [h, Ne.symm h]

/-- The versions that serve a kind are those in which it is found. -/
theorem mem_served_iff {s : Snapshot} (h : s.Ordered) (group version kind : String) :
    version ∈ s.served group kind ↔ (s.scope? ⟨group, version, kind⟩).isSome := by
  have hlookup (kinds : List (String × Scope)) :
      (version, kinds) ∈ s.versionsOf group ↔ (s.versionsOf group).lookup version = some kinds :=
    mem_iff_lookup (h.distinct group)
  simp only [served, List.mem_map, List.mem_filter, Prod.exists, exists_and_right,
    exists_eq_right, hlookup, any_kind_iff]
  unfold scope?
  cases (s.versionsOf group).lookup version with
  | none => simp
  | some kinds => simp

theorem answer_of_some {s : Snapshot} {k : GroupVersionKind} {scope : Scope}
    (h : s.scope? k = some scope) : s.answer k = .ok scope := by
  rw [answer, h]

/-- A version in which the kind is not found is not among those that serve it, and stands last. -/
theorem answer_of_none {s : Snapshot} (hs : s.Ordered) {k : GroupVersionKind}
    (h : s.scope? k = none) :
    k.version ∉ s.served k.group k.kind ∧
      s.answer k = .error (.kindNotFound k.group k.kind (s.served k.group k.kind ++ [k.version])) := by
  have hv : k.version ∉ s.served k.group k.kind := by
    rw [mem_served_iff hs, h]
    exact Bool.false_ne_true
  refine ⟨hv, ?_⟩
  rw [answer, h, kindNotFound, if_neg hv]

end Snapshot

namespace ApiServer

/-- No group lists a version twice. -/
def Distinct (server : ApiServer) : Prop :=
  ∀ g ∈ server.api, (g.versions.map (·.version)).Nodup

theorem Distinct.discover {server : ApiServer} (h : server.Distinct) :
    server.discover.2.Distinct := by
  unfold ApiServer.discover
  split <;> exact h

theorem Distinct.ordered {server : ApiServer} (h : server.Distinct) {s : Snapshot}
    (hs : server.discover.1 = some s) : s.Ordered := by
  unfold ApiServer.discover at hs
  split at hs
  · cases hs
  · exact Snapshot.ordered_of_ofApi? hs h

/-- Discovery on servers of this kind. -/
def discoverDistinct (server : {server : ApiServer // server.Distinct}) :
    Option Snapshot × {server : ApiServer // server.Distinct} :=
  (server.1.discover.1, ⟨server.1.discover.2, server.2.discover⟩)

end ApiServer
end DependentWatch
