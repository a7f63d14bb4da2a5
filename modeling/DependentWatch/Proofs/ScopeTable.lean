import DependentWatch.ScopeTable
import DependentWatch.Proofs.History
import DependentWatch.Proofs.Lookup
import DependentWatch.Proofs.Order
import Mathlib.Data.List.Nodup
import Mathlib.Data.List.Sort
/-! What a table answers after registrations and lookups. Only the last registration of a kind
counts, and neither the order of different kinds nor the order in which a table is stored does. -/
namespace DependentWatch.ScopeTable

theorem scope?_eq (t : ScopeTable) (k : GroupVersionKind) :
    t.scope? k = ((t.kinds.filter (·.1 = k)).map (·.2)).getLast? := by
  rw [List.getLast?_map, List.getLast?_filter, scope?]

theorem insertVersion_eq (v : String) (vs : List String) :
    insertVersion v vs = insertOnce (· < ·) v vs := by
  induction vs with
  | nil => rfl
  | cons w vs ih => simp only [insertVersion, insertOnce, ih]

theorem versions_eq (t : ScopeTable) (group kind : String) :
    t.versions group kind =
      ((t.kinds.filter fun e => e.1.group = group ∧ e.1.kind = kind).map
        (·.1.version)).foldr (insertOnce (· < ·)) [] :=
  congrArg (fun f => List.foldr f [] _) (funext fun v => funext fun vs => insertVersion_eq v vs)

/-- The versions among some entries. -/
theorem mem_map_version_iff (entries : List (GroupVersionKind × Scope)) (group kind v : String) :
    v ∈ (entries.filter fun e => e.1.group = group ∧ e.1.kind = kind).map (·.1.version) ↔
      (⟨group, v, kind⟩ : GroupVersionKind) ∈ entries.map Prod.fst := by
  simp only [List.mem_map, List.mem_filter, decide_eq_true_eq]
  constructor
  · rintro ⟨⟨⟨_, _, _⟩, s⟩, ⟨he, rfl, rfl⟩, rfl⟩
    exact ⟨_, he, rfl⟩
  · rintro ⟨⟨k, s⟩, he, rfl⟩
    exact ⟨_, ⟨he, rfl, rfl⟩, rfl⟩

/-- Kinds that differ, in one group and of one name, differ in their versions. -/
theorem nodup_map_version {entries : List (GroupVersionKind × Scope)}
    (h : (entries.map Prod.fst).Nodup) (group kind : String) :
    ((entries.filter fun e => e.1.group = group ∧ e.1.kind = kind).map (·.1.version)).Nodup := by
  have hkinds : (entries.filter fun e => e.1.group = group ∧ e.1.kind = kind).map Prod.fst =
      ((entries.filter fun e => e.1.group = group ∧ e.1.kind = kind).map (·.1.version)).map
        fun v => ⟨group, v, kind⟩ := by
    rw [List.map_map]
    refine List.map_congr_left fun e he => ?_
    obtain ⟨rfl, rfl⟩ : e.1.group = group ∧ e.1.kind = kind := by
      simpa using (List.mem_filter.1 he).2
    rfl
  have hnodup := h.sublist ((List.filter_sublist
    (p := fun e => e.1.group = group ∧ e.1.kind = kind)).map Prod.fst)
  rw [hkinds] at hnodup
  exact hnodup.of_map _

theorem mem_versions_iff (t : ScopeTable) (group kind v : String) :
    v ∈ t.versions group kind ↔ (⟨group, v, kind⟩ : GroupVersionKind) ∈ t.kinds.map Prod.fst := by
  rw [versions_eq, mem_foldr_insertOnce, mem_map_version_iff]

theorem pairwise_versions (t : ScopeTable) (group kind : String) :
    (t.versions group kind).Pairwise (· < ·) := by
  rw [versions_eq]
  exact pairwise_foldr_insertOnce (· < ·) (fun _ _ _ => String.lt_trans) Text.lt_trichotomy _

/-! Sequences of calls. -/

inductive Call where
  | register (k : GroupVersionKind) (s : Scope)
  | namespaced (group version kind : String)
  | cluster (group version kind : String)
  | lookup (k : GroupVersionKind)

/-- What a call registers. -/
def Call.entry? : Call → Option (GroupVersionKind × Scope)
  | register k s => some (k, s)
  | namespaced group version kind => some (⟨group, version, kind⟩, .namespaced)
  | cluster group version kind => some (⟨group, version, kind⟩, .cluster)
  | lookup _ => none

def perform (t : ScopeTable) : Call → List (Except WatchError Scope) × ScopeTable
  | .register k s => ([], t.add k s)
  | .namespaced group version kind => ([], t.namespaced group version kind)
  | .cluster group version kind => ([], t.cluster group version kind)
  | .lookup k => ([(t.resolve k).1], (t.resolve k).2)

/-- The log holds the answers. -/
def system : System ScopeTable Call (Except WatchError Scope) where
  step t c := (t.perform c).2
  marks t c := (t.perform c).1

def registered (calls : List Call) : List (GroupVersionKind × Scope) := calls.filterMap Call.entry?

/-- The scopes that a kind was registered with, one after the other. -/
def scopesOf (k : GroupVersionKind) (calls : List Call) : List Scope :=
  ((registered calls).filter (·.1 = k)).map (·.2)

theorem kinds_perform (t : ScopeTable) (c : Call) :
    (t.perform c).2.kinds = t.kinds ++ c.entry?.toList := by
  cases c with
  | lookup k => exact (List.append_nil _).symm
  | _ => rfl

theorem kinds_run (t : ScopeTable) (calls : List Call) :
    (system.run t calls).kinds = t.kinds ++ registered calls := by
  induction calls generalizing t with
  | nil => exact (List.append_nil _).symm
  | cons c calls ih =>
    have hc : registered (c :: calls) = c.entry?.toList ++ registered calls := by
      unfold registered
      cases h : c.entry? <;> simp [h]
    rw [System.run, ih, hc, ← List.append_assoc]
    exact congrArg (· ++ registered calls) (t.kinds_perform c)

theorem kinds_run_empty (calls : List Call) :
    (system.run empty calls).kinds = registered calls := by
  rw [kinds_run]
  rfl

/-- Tables with the same registrations give the same answers, however often they were asked. -/
theorem log_congr {t u : ScopeTable} (h : t.kinds = u.kinds) (calls : List Call) :
    system.log t calls = system.log u calls := by
  induction calls generalizing t u with
  | nil => rfl
  | cons c calls ih =>
    have hstep : (t.perform c).2.kinds = (u.perform c).2.kinds := by
      rw [kinds_perform, kinds_perform, h]
    have hmarks : (t.perform c).1 = (u.perform c).1 := by
      obtain ⟨kinds, n⟩ := t
      obtain ⟨_, m⟩ := u
      subst h
      cases c <;> rfl
    exact congrArg₂ (· ++ ·) hmarks (ih hstep)

theorem run_lookups (t : ScopeTable) (ks : List GroupVersionKind) :
    system.run t (ks.map .lookup) = { t with lookups := t.lookups + ks.length } := by
  induction ks generalizing t with
  | nil => rfl
  | cons k ks ih =>
    rw [List.map_cons, System.run, ih, List.length_cons, Nat.add_comm ks.length 1, ← Nat.add_assoc]
    rfl

theorem log_lookups (t : ScopeTable) (ks : List GroupVersionKind) :
    system.log t (ks.map .lookup) = ks.map t.answer := by
  induction ks generalizing t with
  | nil => rfl
  | cons k ks ih =>
    rw [List.map_cons, System.log, ih, List.map_cons]
    rfl

/-! Answers. -/

/-- The answer to a lookup of a kind after some calls. A kind that was not registered is reported
with the versions that were registered, in the order of their bytes, and with its own one last. -/
inductive Answers (calls : List Call) (k : GroupVersionKind) : Except WatchError Scope → Prop where
  | found {s : Scope} : (scopesOf k calls).getLast? = some s → Answers calls k (.ok s)
  | missing {known : List String} : scopesOf k calls = [] →
      known.Pairwise (fun v w => Text.bytes v < Text.bytes w) →
      (∀ v, v ∈ known ↔ scopesOf ⟨k.group, v, k.kind⟩ calls ≠ []) → k.version ∉ known →
      Answers calls k (.error (.kindNotFound k.group k.kind (known ++ [k.version])))

variable {calls : List Call} {k : GroupVersionKind}

theorem scopesOf_ne_nil_iff : scopesOf k calls ≠ [] ↔ k ∈ (registered calls).map Prod.fst := by
  rw [scopesOf, Ne, List.map_eq_nil_iff, List.filter_eq_nil_iff]
  simp

theorem Answers.unique {a b : Except WatchError Scope} (ha : Answers calls k a)
    (hb : Answers calls k b) : a = b := by
  cases ha with
  | found ha =>
    cases hb with
    | found hb => exact congrArg _ (Option.some.inj (ha.symm.trans hb))
    | missing hb => simp [hb] at ha
  | missing ha hknown hmem =>
    cases hb with
    | found hb => simp [ha] at hb
    | missing hb hknown' hmem' =>
      have hsame := hknown.eq_of_mem_iff hknown' fun v => (hmem v).trans (hmem' v).symm
      rw [hsame]

/-- An answer that is found as the code does, among versions in order. -/
theorem answers_of_versions {scope : Option Scope} {known : List String}
    (hscope : scope = (scopesOf k calls).getLast?) (hknown : known.Pairwise (· < ·))
    (hmem : ∀ v, v ∈ known ↔ scopesOf ⟨k.group, v, k.kind⟩ calls ≠ []) :
    Answers calls k (match scope with
      | some s => .ok s
      | none => .error (kindNotFound k known)) := by
  cases scope with
  | some s => exact .found hscope.symm
  | none =>
    have hnil : scopesOf k calls = [] := List.getLast?_eq_none_iff.1 hscope.symm
    have hv : k.version ∉ known := fun h => (hmem k.version).1 h hnil
    dsimp only
    rw [kindNotFound, if_neg hv]
    exact .missing hnil (hknown.imp Text.bytes_lt_of_lt) hmem hv

theorem answers_run (calls : List Call) (k : GroupVersionKind) :
    Answers calls k ((system.run empty calls).answer k) := by
  refine answers_of_versions ?_ (pairwise_versions _ k.group k.kind) fun v => ?_
  · rw [scope?_eq, kinds_run_empty]
    rfl
  · rw [mem_versions_iff, kinds_run_empty, scopesOf_ne_nil_iff]

theorem answer_run_iff (a : Except WatchError Scope) :
    (system.run empty calls).answer k = a ↔ Answers calls k a :=
  ⟨fun h => h ▸ answers_run calls k, (answers_run calls k).unique⟩

theorem Answers.congr {calls' : List Call} (h : ∀ j, scopesOf j calls' = scopesOf j calls)
    {a : Except WatchError Scope} (ha : Answers calls k a) : Answers calls' k a := by
  cases ha with
  | found ha => exact .found (by rw [h, ha])
  | missing ha hknown hmem hv => exact .missing (by rw [h, ha]) hknown (by simpa only [h]) hv

/-! Tables as they are stored. -/

/-- The entries that registrations may leave in a table: each kind once, with the scope it was
registered with last, in an order that each registration may change. -/
inductive Stored : List (GroupVersionKind × Scope) → List (GroupVersionKind × Scope) → Prop where
  | empty : Stored [] []
  | put {kinds entries entries' : List (GroupVersionKind × Scope)} {k : GroupVersionKind}
      {s : Scope} : Stored kinds entries →
      entries'.Perm ((k, s) :: entries.filter (·.1 ≠ k)) → Stored (kinds ++ [(k, s)]) entries'

/-- The answer that is read off the entries: the versions are collected and sorted. -/
def storedAnswer (entries : List (GroupVersionKind × Scope)) (k : GroupVersionKind) :
    Except WatchError Scope :=
  match entries.lookup k with
  | some s => .ok s
  | none => .error (kindNotFound k
      ((entries.filter fun e => e.1.group = k.group ∧ e.1.kind = k.kind).map
        (·.1.version)).mergeSort)

variable {kinds entries : List (GroupVersionKind × Scope)}

theorem Stored.nodup (h : Stored kinds entries) : (entries.map Prod.fst).Nodup := by
  induction h with
  | empty => exact .nil
  | @put _ _ _ k s _ hp ih => exact (hp.map _).nodup_iff.2 (nodup_keys_put ih k s)

theorem Stored.lookup_eq (h : Stored kinds entries) (k : GroupVersionKind) :
    entries.lookup k = ((kinds.filter (·.1 = k)).map (·.2)).getLast? := by
  induction h with
  | empty => rfl
  | @put kinds entries _ j s h hp ih =>
    rw [lookup_of_perm hp (nodup_keys_put h.nodup j s), lookup_put, ih, List.filter_append]
    by_cases hk : k = j
    · simp [hk]
    · simp [hk, Ne.symm hk]

theorem Stored.answers (h : Stored (registered calls) entries) (k : GroupVersionKind) :
    Answers calls k (storedAnswer entries k) := by
  have hknown := Text.pairwise_mergeSort (nodup_map_version h.nodup k.group k.kind)
  refine answers_of_versions (h.lookup_eq k) hknown fun v => ?_
  rw [List.mem_mergeSort, mem_map_version_iff, ← isSome_lookup_iff, h.lookup_eq]
  exact Option.isSome_iff_ne_none.trans (not_congr List.getLast?_eq_none_iff)

/-- After any registrations and lookups, a kind has the scope it was registered with last, and a
kind without a registration is reported with the versions that its group has of it, in order, and
its own. The order of registrations of different kinds does not matter, nor does the order in which
the table is stored. Each lookup is counted, and changes no answer that is given later. -/
theorem last_registration_answers (calls : List Call) (k : GroupVersionKind) :
    let t := system.run empty calls
    (∀ a, (t.resolve k).1 = a ↔ Answers calls k a) ∧
    (∀ calls', (∀ j, scopesOf j calls' = scopesOf j calls) →
      ((system.run empty calls').resolve k).1 = (t.resolve k).1) ∧
    (∀ entries, Stored (registered calls) entries → storedAnswer entries k = (t.resolve k).1) ∧
    ∀ ks : List GroupVersionKind,
      let asked := system.run t (ks.map .lookup)
      system.log t (ks.map .lookup) = ks.map (fun j => (t.resolve j).1) ∧
        asked.lookups = t.lookups + ks.length ∧
        ∀ later, system.log asked later = system.log t later := by
  intro t
  refine ⟨fun _ => answer_run_iff _, fun calls' hsame => ?_, fun entries hstored => ?_,
    fun ks => ⟨t.log_lookups ks, ?_, fun later => log_congr ?_ later⟩⟩
  · exact (answer_run_iff _).2 ((answers_run calls k).congr hsame)
  · exact (hstored.answers k).unique (answers_run calls k)
  · rw [run_lookups]
  · rw [run_lookups]

/-- A kind that is registered anew behind another version, and a version that is not registered. -/
theorem last_registration_answers_widget :
    let stable : GroupVersionKind := ⟨"example.com", "v1", "Widget"⟩
    let beta : GroupVersionKind := ⟨"example.com", "v1beta1", "Widget"⟩
    let other : GroupVersionKind := ⟨"example.com", "v2", "Widget"⟩
    let calls : List Call := [.cluster "example.com" "v1" "Widget",
      .namespaced "example.com" "v1beta1" "Widget", .register stable .namespaced]
    let reordered : List Call := [.register beta .namespaced, .register stable .cluster,
      .lookup other, .register stable .namespaced]
    let entries := [(beta, Scope.namespaced), (stable, Scope.namespaced)]
    let missing : Except WatchError Scope :=
      .error (.kindNotFound "example.com" "Widget" ["v1", "v1beta1", "v2"])
    (∀ j, scopesOf j reordered = scopesOf j calls) ∧ Stored (registered calls) entries ∧
      ((system.run empty reordered).resolve other).1 = missing ∧
      storedAnswer entries other = missing := by
  intro stable beta other calls reordered entries missing
  have hsame (j : GroupVersionKind) : scopesOf j reordered = scopesOf j calls := by
    by_cases hs : stable = j
    · subst hs
      decide
    by_cases hb : beta = j
    · subst hb
      decide
    have hnone (cs : List Call) (h : ∀ i ∈ (registered cs).map Prod.fst, i = stable ∨ i = beta) :
        scopesOf j cs = [] := by
      refine not_not.1 (mt scopesOf_ne_nil_iff.1 fun hj => ?_)
      obtain rfl | rfl := h j hj
      · exact hs rfl
      · exact hb rfl
    rw [hnone reordered (by decide), hnone calls (by decide)]
  have hfirst : Stored ([] ++ [(stable, .cluster)]) [(stable, .cluster)] := .put .empty (by decide)
  have hsecond : Stored ([(stable, .cluster)] ++ [(beta, .namespaced)])
      [(stable, .cluster), (beta, .namespaced)] := .put hfirst (by decide)
  have hstored : Stored ([(stable, .cluster), (beta, .namespaced)] ++ [(stable, .namespaced)])
      entries := .put hsecond (by decide)
  obtain ⟨hanswer, horder, hstore, -⟩ := last_registration_answers calls other
  have hmissing : ((system.run empty calls).resolve other).1 = missing := by decide
  exact ⟨hsame, hstored, (horder reordered hsame).trans hmissing,
    (hstore entries hstored).trans hmissing⟩

end DependentWatch.ScopeTable
